import CertKeeper.Proofs.Certificate.Time
import CertKeeper.Proofs.Time.Instant
import CertKeeper.Time.Rfc3339

/-!
# Reading time stamps

The time stamp of an instant of the years 0 to 9999 is read as the start of its second
(`Rfc3339.read?_writeSeconds`), and that of another year is not read. So what is read from the
time stamp of an instant never lies after it (`Rfc3339.not_before_of_read?_writeSeconds`).
-/

namespace CertKeeper

namespace Instant

/-- The year is one that four digits can tell. -/
def FourDigits (t : Instant) : Prop := 0 ≤ t.date.year ∧ t.date.year ≤ 9999

theorem not_before_truncate (t : Instant) :
  ¬ t.before t.truncate
  := by
  rw [before_iff, truncate]
  split
  · rename_i h
    rw [inLeapSecond, decide_eq_true_eq] at h
    simp only
    omega
  · simp only [ofSeconds]
    omega

end Instant

namespace Rfc3339

/-- A number that fills its width is read back. -/
theorem number?_paddedDigits (width : Nat) {n : Nat} (hwidth : 0 < width) (h : n < Nat.pow 10 width)
    (rest : List Char) :
  number? width (Decimal.paddedDigits width n ++ rest) = some (n, rest)
  := by
  have hlength := Decimal.length_paddedDigits width hwidth h
  rw [number?, if_pos (by rw [List.length_append]; omega), List.take_left' hlength,
    List.drop_left' hlength, Decimal.value?_paddedDigits]
  rfl

theorem after?_cons (c : Char) (rest : List Char) :
  after? c (c :: rest) = some rest
  := by
  rw [after?, if_pos rfl]

/-- The second that a time stamp shows. -/
def shownSecond (t : Instant) : Nat := t.timeOfDay % 60 + (if t.inLeapSecond then 1 else 0)

/-- The characters of a time stamp after the year. -/
def afterYear (t : Instant) : List Char :=
  '-' :: (Decimal.paddedDigits 2 t.date.month ++ '-' :: (Decimal.paddedDigits 2 t.date.day
    ++ 'T' :: (Decimal.paddedDigits 2 (t.timeOfDay / 3600)
    ++ ':' :: (Decimal.paddedDigits 2 (t.timeOfDay / 60 % 60)
    ++ ':' :: (Decimal.paddedDigits 2 (shownSecond t) ++ ['Z'])))))

theorem toList_writeSeconds (t : Instant) :
  (writeSeconds t).toList = (yearText t.date.year).toList ++ afterYear t
  := by
  simp only [writeSeconds, dateText, timeText, shownSecond, Decimal.padded, String.toList_append,
    String.toList_ofList, List.append_assoc, afterYear]
  rfl

/-- The fields of the time of the day give the instant back. -/
theorem ofFields?_date {t : Instant} (hcivil : t.Civil) :
  ofFields? t.date (t.timeOfDay / 3600) (t.timeOfDay / 60 % 60) (shownSecond t) 0 0
    = some t.truncate
  := by
  have htime := t.timeOfDay_lt
  have hsum := t.dayNumber_date
  have hlast : t.inLeapSecond → t.timeOfDay % 60 = 59 := by
    intro h
    have := hcivil h
    simp only [Instant.secondsPerDay] at hsum
    omega
  unfold ofFields? shownSecond
  -- Only a leap second is shown as the second 60.
  by_cases h : t.inLeapSecond
  · have hshows : t.timeOfDay % 60 + 1 = 60 := by
      have := hlast h
      omega
    have hlt : 0 + 1 * nanosPerSecond < 2 * nanosPerSecond := by decide
    simp only [if_pos h, if_pos hshows]
    rw [dif_pos ⟨by omega, hlt⟩]
    apply congrArg some
    apply Instant.eq_of_parts
    · simp only [Instant.truncate, if_pos h, ← hsum, Instant.secondsPerDay]
      omega
    · simp only [Instant.truncate, if_pos h]
      decide
  · have hshows : ¬ t.timeOfDay % 60 + 0 = 60 := by omega
    have hlt : 0 + 0 * nanosPerSecond < 2 * nanosPerSecond := by decide
    simp only [if_neg h, if_neg hshows]
    rw [dif_pos ⟨by omega, hlt⟩]
    apply congrArg some
    apply Instant.eq_of_parts
    · simp only [Instant.truncate, if_neg h, ← hsum, Instant.secondsPerDay, Instant.ofSeconds]
      omega
    · simp only [Instant.truncate, if_neg h, Instant.ofSeconds]
      decide

/-- The time stamp of an instant is read as the start of its second. -/
theorem read?_writeSeconds {t : Instant} (hyear : t.FourDigits) (hcivil : t.Civil) :
  read? (writeSeconds t) = some t.truncate
  := by
  obtain ⟨hmonth, hday⟩ := CertificateTime.date_bounds t
  have htime := t.timeOfDay_lt
  have hdate : Date.ofFields? t.date.year t.date.month t.date.day = some t.date :=
    Date.ofFields?_ofDayNumber _
  have hyearNat : ((t.date.year.toNat : Nat) : Int) = t.date.year := Int.toNat_of_nonneg hyear.1
  have hyear' : t.date.year.toNat < 10000 := by
    have := hyear.2
    omega
  have hyearText : yearText t.date.year = Decimal.padded 4 t.date.year.toNat := if_pos hyear
  have hshown : shownSecond t < 100 := by
    simp only [shownSecond]
    split <;> omega
  have hfraction : fraction? ['Z'] = some (0, ['Z']) := rfl
  have hoffset : offset? ['Z'] = some 0 := rfl
  have hseparator : isSeparator 'T' = true := rfl
  rw [read?, toList_writeSeconds, hyearText, Decimal.padded, String.toList_ofList, afterYear]
  simp only [Option.bind_eq_bind, number?_paddedDigits 4 (by decide) hyear', Option.bind_some,
    after?_cons, number?_paddedDigits 2 (by decide) (show t.date.month < 100 by omega),
    number?_paddedDigits 2 (by decide) (show t.date.day < 100 by omega), hyearNat, hdate,
    List.head?_cons, List.tail_cons, hseparator, Bool.not_true, Bool.false_eq_true, if_false,
    number?_paddedDigits 2 (by decide) (show t.timeOfDay / 3600 < 100 by omega),
    number?_paddedDigits 2 (by decide) (show t.timeOfDay / 60 % 60 < 100 by omega),
    number?_paddedDigits 2 (by decide) hshown, hfraction, hoffset]
  apply ofFields?_date hcivil

/-- The time stamp of an instant of another year is not read. -/
theorem read?_writeSeconds_eq_none {t : Instant} (hyear : ¬ t.FourDigits) :
  read? (writeSeconds t) = none
  := by
  obtain ⟨sign, digits, hsign, htext⟩ : ∃ (sign : Char) (digits : List Char),
      Decimal.digitValue? sign = none ∧ (yearText t.date.year).toList = sign :: digits := by
    have hyear' : ¬ (0 ≤ t.date.year ∧ t.date.year ≤ 9999) := hyear
    rw [yearText, if_neg hyear']
    split
    · exact ⟨'-', (Decimal.padded 4 t.date.year.natAbs).toList, rfl, String.toList_append⟩
    · exact ⟨'+', (Decimal.padded 4 t.date.year.natAbs).toList, rfl, String.toList_append⟩
  have hnumber : ∀ rest, number? 4 (sign :: rest) = none := by
    intro rest
    rw [number?]
    split
    · rw [List.take_succ_cons, Decimal.value?, Decimal.valueFrom?, hsign]
      rfl
    · rfl
  rw [read?, toList_writeSeconds, htext, List.cons_append]
  simp only [hnumber, Option.bind_eq_bind, Option.bind_none]

/-- What is read from the time stamp of an instant does not lie after it. -/
theorem not_before_of_read?_writeSeconds {t u : Instant} (hcivil : t.Civil)
    (h : read? (writeSeconds t) = some u) :
  ¬ t.before u
  := by
  by_cases hyear : t.FourDigits
  · rw [read?_writeSeconds hyear hcivil] at h
    obtain rfl := Option.some.inj h
    apply t.not_before_truncate
  · rw [read?_writeSeconds_eq_none hyear] at h
    cases h

end Rfc3339

end CertKeeper
