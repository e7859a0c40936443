import CertKeeper.Duration.UnitText
import CertKeeper.Proofs.Program.Result
import CertKeeper.Proofs.Text.Decimal

/-!
# Reading back counts of units

The text of a duration is one group, a count and the unit that divides the duration, and it is read as
that duration (`Duration.read_write`), unless the count is too large for 64 bits. Every whole number of
seconds is `Countable` (`Duration.countable_of_fraction`).
-/

namespace CertKeeper

theorem isNumeric_of_isDigit {c : Char} (h : c.isDigit) :
  isNumeric c
  := by
  obtain ⟨hlow, hhigh⟩ := Char.isDigit_iff_toNat.mp h
  rw [isNumeric, numericRanges, List.any_cons, Bool.or_eq_true]
  left
  simp only [Bool.and_eq_true, decide_eq_true_eq]
  exact ⟨hlow, hhigh⟩

theorem not_isBlank_of_isDigit {c : Char} (h : c.isDigit) :
  isBlank c = false
  := by
  obtain ⟨hlow, hhigh⟩ := Char.isDigit_iff_toNat.mp h
  have hzero : '0'.toNat = 48 := rfl
  have hnine : '9'.toNat = 57 := rfl
  simp only [isBlank, Bool.or_eq_false_iff, Bool.and_eq_false_imp, decide_eq_true_eq, decide_eq_false_iff_not]
  omega

namespace TimeUnit

theorem ofSymbol?_symbol (unit : TimeUnit) :
  ofSymbol? (String.ofList unit.symbol.toList) = some unit
  := by
  rw [String.ofList_toList]
  cases unit <;> decide

/-- The sign of a unit has neither digits nor blanks. -/
theorem of_mem_symbol {unit : TimeUnit} {c : Char} (h : c ∈ unit.symbol.toList) :
  isNumeric c = false ∧ isBlank c = false
  := by
  have hall : unit.symbol.toList.all (fun c => !isNumeric c && !isBlank c) = true := by
    cases unit <;> rfl
  simpa using List.all_eq_true.mp hall c h

end TimeUnit

namespace Duration

variable {d : Duration}

/-- The count of a duration in its text fits into 64 bits. -/
def Countable (d : Duration) : Prop := d.nanos / d.largestUnit.nanos < countBound

/-- The largest unit does divide a duration. -/
theorem largestUnit_dvd (d : Duration) :
  d.largestUnit.nanos ∣ d.nanos
  := by
  unfold largestUnit
  cases h : TimeUnit.all.find? (fun unit => d.nanos % unit.nanos = 0) with
  | none => apply Nat.one_dvd
  | some unit =>
    apply Nat.dvd_of_mod_eq_zero
    simpa using List.find?_some h

/-- A whole number of seconds has a unit of at least a second, so that its count is not too large. -/
theorem countable_of_fraction (h : d.fraction = 0) :
  d.Countable
  := by
  have hlong : ∃ unit ∈ [TimeUnit.year, .week, .day, .hour, .minute, .second],
      TimeUnit.all.find? (fun unit => d.nanos % unit.nanos = 0) = some unit := by
    have hfound : ([TimeUnit.year, .week, .day, .hour, .minute, .second].find?
        (fun unit => d.nanos % unit.nanos = 0)).isSome := by
      rw [List.find?_isSome]
      exact ⟨.second, by decide, decide_eq_true h⟩
    obtain ⟨unit, hunit⟩ := Option.isSome_iff_exists.mp hfound
    refine ⟨unit, List.mem_of_find?_eq_some hunit, ?_⟩
    rw [show TimeUnit.all = [TimeUnit.year, .week, .day, .hour, .minute, .second] ++ [.milli, .micro, .nano]
      from rfl, List.find?_append, hunit]
    rfl
  obtain ⟨unit, hmem, hunit⟩ := hlong
  have hlargest : d.largestUnit = unit := by rw [largestUnit, hunit, Option.getD_some]
  have hsecond : ∀ unit ∈ [TimeUnit.year, .week, .day, .hour, .minute, .second],
      nanosPerSecond ≤ unit.nanos := by decide
  rw [Countable, hlargest]
  calc d.nanos / unit.nanos
    _ ≤ d.nanos / nanosPerSecond := Nat.div_le_div_left (hsecond unit hmem) (by decide)
    _ < secondsBound := by
      rw [Nat.div_lt_iff_lt_mul (by decide)]
      apply d.nanos_lt

/-! ### Groups -/

/-- Characters that are not numeric are the unit of a group without a count. -/
theorem groups_of_unit {unit : List Char} (h : ∀ c ∈ unit, isNumeric c = false) :
  groups unit = (([], unit), [])
  := by
  induction unit with
  | nil => rfl
  | cons c unit ih =>
    rw [groups, ih (fun c' hc' => h c' (List.mem_cons_of_mem _ hc'))]
    simp [h c List.mem_cons_self]

/-- Numeric characters and others after them are one group. -/
theorem groups_append {count unit : List Char} (hcount : ∀ c ∈ count, isNumeric c)
    (hunit : ∀ c ∈ unit, isNumeric c = false) :
  groups (count ++ unit) = ((count, unit), [])
  := by
  induction count with
  | nil => apply groups_of_unit hunit
  | cons c count ih =>
    rw [List.cons_append, groups, ih (fun c' hc' => hcount c' (List.mem_cons_of_mem _ hc'))]
    simp [hcount c List.mem_cons_self]

theorem le_of_valueFrom? {acc n : Nat} {cs : List Char} (h : Decimal.valueFrom? acc cs = some n) :
  acc ≤ n
  := by
  induction cs generalizing acc with
  | nil => exact Nat.le_of_eq (Option.some.inj h)
  | cons c cs ih =>
    obtain ⟨digit, -, hrest⟩ := Option.bind_eq_some_iff.mp h
    have hle := ih hrest
    omega

/-- A value that is not too large is a count. -/
theorem countFrom_of_valueFrom? {acc n : Nat} {cs : List Char}
    (h : Decimal.valueFrom? acc cs = some n) (hn : n < countBound) :
  countFrom acc cs = .ok n
  := by
  induction cs generalizing acc with
  | nil => exact congrArg Except.ok (Option.some.inj h)
  | cons c cs ih =>
    obtain ⟨digit, hdigit, hrest⟩ := Option.bind_eq_some_iff.mp h
    have hle := le_of_valueFrom? hrest
    simp only [countFrom, hdigit, if_pos (Nat.lt_of_le_of_lt hle hn)]
    apply ih hrest

theorem readCount_digits {n : Nat} (h : n < countBound) :
  readCount (Decimal.digits n) = .ok n
  := by
  have hne : Decimal.digits n ≠ [] := Nat.toDigits_ne_nil
  rw [readCount, if_neg (by simpa using hne)]
  apply countFrom_of_valueFrom? (Decimal.value?_digits n) h

/-- A group of a count and a sign is read as a duration of that many units. -/
theorem readGroup_of_count {n : Nat} {unit : TimeUnit} (hn : n < countBound)
    (hd : n * unit.nanos = d.nanos) :
  readGroup (Decimal.digits n, unit.symbol.toList) = .ok d
  := by
  have hnanos : ofNanos? (n * unit.nanos) = some d := by
    rw [hd, ofNanos?, dif_pos d.nanos_lt]
  apply bind_eq_ok.mpr ⟨n, mapError_eq_ok.mpr (readCount_digits hn), _⟩
  simp only [TimeUnit.ofSymbol?_symbol, hnanos]

theorem zero_add? (d : Duration) :
  zero.add? d = some d
  := by
  rw [add?, ofNanos?, zero, Nat.zero_add, dif_pos d.nanos_lt]

/-- The text of a duration is read as the same duration. -/
theorem read_write (h : d.Countable) :
  read d.write = .ok d
  := by
  have hchars : d.write.toList
      = Decimal.digits (d.nanos / d.largestUnit.nanos) ++ d.largestUnit.symbol.toList := by
    rw [write, String.toList_append, Decimal.text, String.toList_ofList]
  have hblanks : d.write.toList.filter (fun c => !isBlank c) = d.write.toList := by
    rw [List.filter_eq_self, hchars]
    intro c hc
    rcases List.mem_append.mp hc with hdigit | hsymbol
    · rw [not_isBlank_of_isDigit (Decimal.isDigit_of_mem_digits hdigit)]
      rfl
    · rw [(TimeUnit.of_mem_symbol hsymbol).2]
      rfl
  have hgroups : groups d.write.toList
      = ((Decimal.digits (d.nanos / d.largestUnit.nanos), d.largestUnit.symbol.toList), []) := by
    rw [hchars]
    apply groups_append
    · exact fun c hc => isNumeric_of_isDigit (Decimal.isDigit_of_mem_digits hc)
    · exact fun c hc => (TimeUnit.of_mem_symbol hc).1
  rw [read, hblanks, hgroups]
  apply bind_eq_ok.mpr ⟨d, readGroup_of_count h (Nat.div_mul_cancel d.largestUnit_dvd), _⟩
  rw [zero_add?]
  rfl

end Duration

end CertKeeper
