import CertKeeper.Text.Decimal

/-!
# Laws of decimal texts

Reading the digits of a number gives the number back (`Decimal.value?_paddedDigits`), so
the texts of two numbers are equal only if the numbers are (`Decimal.text_injective`). A
number below `10 ^ width` is written with exactly `width` digits if it is filled up to them, and
no number of twelve digits has a long text.
-/

namespace CertKeeper.Decimal

theorem valueFrom?_eq {cs : List Char} (h : ∀ c ∈ cs, c.isDigit) (acc : Nat) :
  valueFrom? acc cs = some (Nat.ofDigitChars 10 cs acc)
  := by
  induction cs generalizing acc with
  | nil => rfl
  | cons c rest ih =>
    have hc : c.isDigit := h c (by simp)
    rw [valueFrom?, digitValue?, if_pos hc, Option.bind_some, Nat.ofDigitChars_cons]
    apply ih
    intro c' hc'
    apply h
    simp [hc']

theorem isDigit_of_mem_digits {n : Nat} {c : Char} (h : c ∈ digits n) :
  c.isDigit
  := Nat.isDigit_of_mem_toDigits (by decide) (by decide) h

theorem isDigit_of_mem_paddedDigits {width n : Nat} {c : Char} (h : c ∈ paddedDigits width n) :
  c.isDigit
  := by
  rcases List.mem_append.mp h with h | h
  · rw [List.eq_of_mem_replicate h]
    rfl
  · apply isDigit_of_mem_digits h

/-- The digits of a number after zeros come to the number. -/
theorem ofDigitChars_paddedDigits (width n : Nat) :
  Nat.ofDigitChars 10 (paddedDigits width n) 0 = n
  := by
  rw [paddedDigits, Nat.ofDigitChars_append, Nat.ofDigitChars_replicate_zero, Nat.mul_zero,
    digits, Nat.ofDigitChars_ten_toDigits]

/-- Reading a number with zeros before it gives the number back. -/
theorem value?_paddedDigits (width n : Nat) :
  value? (paddedDigits width n) = some n
  := by
  rw [value?, valueFrom?_eq (fun c => isDigit_of_mem_paddedDigits), ofDigitChars_paddedDigits]

/-- Reading the digits of a number gives the number back. -/
theorem value?_digits (n : Nat) :
  value? (digits n) = some n
  := by
  rw [value?, valueFrom?_eq (fun c => isDigit_of_mem_digits), digits, Nat.ofDigitChars_ten_toDigits]

/-- A number below `10 ^ width` fills exactly `width` digits. -/
theorem length_paddedDigits (width : Nat) {n : Nat} (hwidth : 0 < width) (h : n < Nat.pow 10 width) :
  (paddedDigits width n).length = width
  := by
  have hle : (digits n).length ≤ width := (Nat.length_toDigits_le_iff (by decide) hwidth).mpr h
  rw [paddedDigits, List.length_append, List.length_replicate]
  omega

theorem digits_injective {m n : Nat} (h : digits m = digits n) :
  m = n
  := by
  rw [← Nat.ofDigitChars_ten_toDigits (n := m), ← Nat.ofDigitChars_ten_toDigits (n := n)]
  apply congrArg (fun cs => Nat.ofDigitChars 10 cs 0) h

/-- Different numbers have different texts. -/
theorem text_injective {m n : Nat} (h : text m = text n) :
  m = n
  := by
  apply digits_injective
  rw [text, text] at h
  simpa using congrArg String.toList h

/-- A text has at most four octets for each character. -/
theorem utf8ByteSize_ofList_le (cs : List Char) :
  (String.ofList cs).utf8ByteSize ≤ 4 * cs.length
  := by
  induction cs with
  | nil => simp
  | cons c cs ih =>
    have hc := c.utf8Size_le_four
    rw [String.ofList_cons, String.utf8ByteSize_append, String.utf8ByteSize_singleton,
      List.length_cons]
    omega

/-- A text of characters has at least one octet for each of them. -/
theorem length_le_utf8ByteSize_ofList (cs : List Char) :
  cs.length ≤ (String.ofList cs).utf8ByteSize
  := by
  induction cs with
  | nil => simp
  | cons c cs ih =>
    have hc := c.utf8Size_pos
    rw [String.ofList_cons, String.utf8ByteSize_append, String.utf8ByteSize_singleton,
      List.length_cons]
    omega

/-- A number of twelve digits has a short text. -/
theorem utf8ByteSize_signed_le {n : Int} (hlow : -1000000000000 < n)
    (hhigh : n < 1000000000000) :
  (signed n).utf8ByteSize ≤ 50
  := by
  have hdigits : (digits n.natAbs).length ≤ 12 :=
    (Nat.length_toDigits_le_iff (by decide) (by decide)).mpr (by omega)
  have htext := utf8ByteSize_ofList_le (digits n.natAbs)
  have hsign : (if n < 0 then "-" else "").utf8ByteSize ≤ 1 := by
    split <;> decide
  rw [signed, String.utf8ByteSize_append, text]
  omega

end CertKeeper.Decimal
