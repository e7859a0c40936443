import CertKeeper.Encoding.Octets

/-!
# Laws of octets

The octets of a number have the number that was written, if it fits
(`Octets.toNat_ofNat`), and the fewest octets always do (`Octets.toNat_minimal`). The
octets of a text are a text, and it is that text (`Octets.text?_ofText`).
-/

namespace CertKeeper.Octets

/-! ### Numbers -/

theorem length_ofNatBefore (rest : Octets) (width n : Nat) :
  (ofNatBefore rest width n).length = width + rest.length
  := by
  induction width generalizing rest n with
  | zero => simp [ofNatBefore]
  | succ width ih =>
    rw [ofNatBefore, ih, List.length_cons]
    omega

@[simp]
theorem length_ofNat (width n : Nat) :
  (ofNat width n).length = width
  := length_ofNatBefore [] width n

theorem toNatFrom_ofNatBefore (acc : Nat) (rest : Octets) (width n : Nat) :
  toNatFrom acc (ofNatBefore rest width n)
    = toNatFrom (acc * Nat.pow 256 width + n % Nat.pow 256 width) rest
  := by
  induction width generalizing rest n with
  | zero => simp [ofNatBefore, Nat.mod_one]
  | succ width ih =>
    have hpow : Nat.pow 256 (width + 1) = Nat.pow 256 width * 256 := rfl
    have hsplit : n % Nat.pow 256 (width + 1)
        = n % 256 + 256 * (n / 256 % Nat.pow 256 width) := by
      rw [hpow, Nat.mul_comm, Nat.mod_mul]
    have hoctet : (UInt8.ofNat (n % 256)).toNat = n % 256 := by simp
    rw [ofNatBefore, ih, toNatFrom, hoctet, hsplit, hpow]
    congr 1
    rw [Nat.mul_add, ← Nat.mul_assoc, Nat.mul_comm 256 acc, Nat.mul_assoc,
      Nat.mul_comm 256 (Nat.pow 256 width)]
    omega

/-- A number that fits is read back. -/
theorem toNat_ofNat {width n : Nat} (h : n < Nat.pow 256 width) :
  toNat (ofNat width n) = n
  := by
  rw [toNat, ofNat, toNatFrom_ofNatBefore, Nat.mod_eq_of_lt h]
  simp [toNatFrom]

theorem lt_width (n : Nat) :
  n < Nat.pow 256 (width n)
  := by
  unfold width
  split
  · rename_i h
    simp [h]
  · have hlog : n < 2 ^ (n.log2 + 1) := Nat.lt_log2_self
    have hpow : Nat.pow 256 (n.log2 / 8 + 1) = 2 ^ (8 * (n.log2 / 8 + 1)) := by
      rw [Nat.pow_mul]
      rfl
    rw [hpow]
    apply Nat.lt_of_lt_of_le hlog
    apply Nat.pow_le_pow_right (by decide)
    omega

/-- The fewest octets of a number are enough to read it back. -/
theorem toNat_minimal (n : Nat) :
  toNat (minimal n) = n
  := toNat_ofNat (lt_width n)

@[simp]
theorem length_minimal (n : Nat) :
  (minimal n).length = width n
  := length_ofNat _ _

theorem width_pos {n : Nat} (h : 0 < n) :
  0 < width n
  := by
  rw [width, if_neg (by omega)]
  omega

/-- A number below `2 ^ 64` takes at most eight octets. -/
theorem width_le {n : Nat} (h : n < Nat.pow 2 64) :
  width n ≤ 8
  := by
  unfold width
  split
  · omega
  · rename_i hn
    have := (Nat.log2_lt hn).mpr h
    omega

/-! ### Texts -/

theorem toList_loop (bs : ByteArray) (i : Nat) (r : List UInt8) :
  ByteArray.toList.loop bs i r = r.reverse ++ bs.data.toList.drop i
  := by
  induction h : bs.size - i generalizing i r with
  | zero =>
    have hle : bs.data.toList.length ≤ i := by
      rw [Array.length_toList]
      change bs.size ≤ i
      omega
    rw [ByteArray.toList.loop, if_neg (by omega), List.drop_eq_nil_of_le hle, List.append_nil]
  | succ m ih =>
    have hlt : i < bs.data.toList.length := by
      rw [Array.length_toList]
      change i < bs.size
      omega
    have hget : bs.get! i = bs.data.toList[i] := by
      rw [ByteArray.get!, getElem!_pos bs.data i (by simpa using hlt), Array.getElem_toList]
    rw [ByteArray.toList.loop, if_pos (by omega), ih (i + 1) (bs.get! i :: r) (by omega), hget,
      List.drop_eq_getElem_cons hlt, List.reverse_cons, List.append_assoc, List.singleton_append]

theorem toList_eq (bs : ByteArray) :
  bs.toList = bs.data.toList
  := by
  rw [ByteArray.toList, toList_loop]
  simp

/-- The octets of a text are that text. -/
@[simp]
theorem text?_ofText (s : String) :
  text? (ofText s) = some s
  := by
  have hbytes : (⟨(ofText s).toArray⟩ : ByteArray) = s.toByteArray := by
    rw [ofText, toList_eq]
    rfl
  rw [text?, hbytes, String.fromUTF8?, dif_pos s.isValidUTF8]
  rfl

end CertKeeper.Octets
