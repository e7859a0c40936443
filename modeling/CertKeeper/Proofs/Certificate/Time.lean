import CertKeeper.Certificate.Time
import CertKeeper.Proofs.Encoding.Der
import CertKeeper.Proofs.Text.Decimal
import CertKeeper.Proofs.Time.Calendar

/-!
# Reading times in certificates

A time of the years 0 to 9999 that is written is read back (`CertificateTime.read?_write`).
The fields of its date and of its time of the day are below 100, so that each takes two
digits, and a year of four digits is read as its century and the year in it.
-/

namespace CertKeeper

namespace Instant

/-- The day of an instant and the seconds since midnight give its seconds. -/
theorem dayNumber_date (t : Instant) :
  t.date.dayNumber * secondsPerDay + t.timeOfDay = t.seconds
  := by
  rw [date, Date.dayNumber_ofDayNumber]
  simp only [timeOfDay, secondsPerDay]
  omega

theorem timeOfDay_lt (t : Instant) :
  t.timeOfDay < 86400
  := by
  simp only [timeOfDay, secondsPerDay]
  omega

end Instant

namespace CertificateTime

theorem pair?_eq (cs : List Char) {n : Nat} (hlength : cs.length = 2)
    (hvalue : Decimal.value? cs = some n) (rest : List Char) :
  pair? (cs ++ rest) = some (n, rest)
  := by
  match cs, hlength with
  | [a, b], _ =>
    rw [List.cons_append, List.singleton_append, pair?, hvalue]
    rfl

/-- A number of two digits is read back. -/
theorem pair?_paddedDigits {n : Nat} (h : n < 100) (rest : List Char) :
  pair? (Decimal.paddedDigits 2 n ++ rest) = some (n, rest)
  := by
  apply pair?_eq _ (Decimal.length_paddedDigits 2 (by decide) h)
  apply Decimal.value?_paddedDigits

/-- A year of four digits is read as its century and the year in it. -/
theorem pair?_year {year : Nat} (h : year < 10000) (rest : List Char) :
  ∃ century digits n, pair? (Decimal.paddedDigits 4 year ++ rest) = some (century, digits ++ rest)
    ∧ pair? (digits ++ rest) = some (n, rest) ∧ century * 100 + n = year
  := by
  have hlength : (Decimal.paddedDigits 4 year).length = 4 :=
    Decimal.length_paddedDigits 4 (by decide) h
  have hvalue := Decimal.value?_paddedDigits 4 year
  have hdigit : ∀ c ∈ Decimal.paddedDigits 4 year, ∃ d, Decimal.digitValue? c = some d := by
    intro c hc
    exact ⟨_, if_pos (Decimal.isDigit_of_mem_paddedDigits hc)⟩
  match hdigits : Decimal.paddedDigits 4 year, hlength with
  | [a, b, c, d], _ =>
    rw [hdigits] at hdigit hvalue
    obtain ⟨x, hx⟩ := hdigit a (by simp)
    obtain ⟨y, hy⟩ := hdigit b (by simp)
    obtain ⟨z, hz⟩ := hdigit c (by simp)
    obtain ⟨w, hw⟩ := hdigit d (by simp)
    simp only [Decimal.value?, Decimal.valueFrom?, hx, hy, hz, hw, Option.bind_some,
      Option.some.injEq] at hvalue
    refine ⟨10 * (10 * 0 + x) + y, [c, d], 10 * (10 * 0 + z) + w, ?_, ?_, by omega⟩
    · apply pair?_eq [a, b] rfl
      simp only [Decimal.value?, Decimal.valueFrom?, hx, hy, Option.bind_some]
    · apply pair?_eq [c, d] rfl
      simp only [Decimal.value?, Decimal.valueFrom?, hz, hw, Option.bind_some]

/-- The characters of the octets of small characters are these characters. -/
theorem characters_octets {cs : List Char} (h : ∀ c ∈ cs, c.toNat < 256) :
  characters (octets cs) = cs
  := by
  rw [characters, octets, List.map_map]
  induction cs with
  | nil => rfl
  | cons c cs ih =>
    have hc : (UInt8.ofNat c.toNat).toNat = c.toNat := by
      rw [UInt8.toNat_ofNat']
      apply Nat.mod_eq_of_lt (h c (by simp))
    rw [List.map_cons, ih (fun c' hc' => h c' (by simp [hc'])), Function.comp_apply, hc,
      Char.ofNat_toNat]

theorem toNat_lt_of_isDigit {c : Char} (h : c.isDigit) :
  c.toNat < 256
  := by
  simp only [Char.isDigit, Bool.and_eq_true, decide_eq_true_eq, ge_iff_le, UInt32.le_iff_toNat_le]
    at h
  have hnine : ('9' : Char).val.toNat = 57 := rfl
  have hval : c.toNat = c.val.toNat := rfl
  omega

/-- The digits of the date and of the time of the day, after the year. -/
def fields (t : Instant) : List Char :=
  Decimal.paddedDigits 2 t.date.month ++ (Decimal.paddedDigits 2 t.date.day
    ++ (Decimal.paddedDigits 2 (t.timeOfDay / 3600) ++ (Decimal.paddedDigits 2 (t.timeOfDay / 60 % 60)
      ++ (Decimal.paddedDigits 2 (t.timeOfDay % 60) ++ ['Z']))))

theorem fields_eq (t : Instant) :
  Decimal.paddedDigits 2 t.date.month ++ Decimal.paddedDigits 2 t.date.day
      ++ Decimal.paddedDigits 2 (t.timeOfDay / 3600) ++ Decimal.paddedDigits 2 (t.timeOfDay / 60 % 60)
      ++ Decimal.paddedDigits 2 (t.timeOfDay % 60) ++ ['Z']
    = fields t
  := by
  simp only [fields, List.append_assoc]

theorem date_bounds (t : Instant) :
  t.date.month ≤ 12 ∧ t.date.day ≤ 31
  := by
  have hfields := Date.ofFields?_ofDayNumber (t.seconds / Instant.secondsPerDay)
  rw [Date.ofFields?] at hfields
  split at hfields
  · rename_i h
    have hdays : Date.daysInMonth t.date.year t.date.month ≤ 31 := by
      unfold Date.daysInMonth
      split <;> (try split) <;> omega
    constructor
    · apply h.2.1
    · apply Nat.le_trans h.2.2.2 hdays
  · cases hfields

/-- The fields after the year are read back, and give the seconds of the instant. -/
theorem withYear?_fields (seconds : Int) (fraction : Bool) :
  withYear? (Instant.ofSeconds seconds).date.year fraction (fields (Instant.ofSeconds seconds))
    = some seconds
  := by
  obtain ⟨t, ht⟩ : ∃ t, t = Instant.ofSeconds seconds := ⟨_, rfl⟩
  have hseconds : t.seconds = seconds := by rw [ht]; rfl
  have hday := t.dayNumber_date
  have htime := t.timeOfDay_lt
  obtain ⟨hmonth, hdayle⟩ := date_bounds t
  have hdate : Date.ofFields? t.date.year t.date.month t.date.day = some t.date :=
    Date.ofFields?_ofDayNumber _
  have hsecond : Decimal.paddedDigits 2 (t.timeOfDay % 60) ++ ['Z'] ≠ ['Z'] := by
    intro h
    have := congrArg List.length h
    rw [List.length_append, Decimal.length_paddedDigits _ (by decide)
      (show t.timeOfDay % 60 < 100 by omega)] at this
    simp at this
  rw [← ht, withYear?, fields]
  simp only [Option.bind_eq_bind, pair?_paddedDigits (show t.date.month < 100 by omega),
    pair?_paddedDigits (show t.date.day < 100 by omega),
    pair?_paddedDigits (show t.timeOfDay / 3600 < 100 by omega),
    pair?_paddedDigits (show t.timeOfDay / 60 % 60 < 100 by omega),
    pair?_paddedDigits (show t.timeOfDay % 60 < 100 by omega), Option.bind_some, if_neg hsecond,
    hdate]
  rw [if_pos ⟨by omega, by omega, by omega, .inl trivial⟩, ← hseconds, ← hday]
  simp only [Instant.secondsPerDay]
  congr 1
  omega

theorem toNat_lt_of_mem_fields {t : Instant} {c : Char} (h : c ∈ fields t) :
  c.toNat < 256
  := by
  simp only [fields, List.mem_append, List.mem_singleton] at h
  rcases h with h | h | h | h | h | rfl
  · apply toNat_lt_of_isDigit (Decimal.isDigit_of_mem_paddedDigits h)
  · apply toNat_lt_of_isDigit (Decimal.isDigit_of_mem_paddedDigits h)
  · apply toNat_lt_of_isDigit (Decimal.isDigit_of_mem_paddedDigits h)
  · apply toNat_lt_of_isDigit (Decimal.isDigit_of_mem_paddedDigits h)
  · apply toNat_lt_of_isDigit (Decimal.isDigit_of_mem_paddedDigits h)
  · decide

theorem length_fields (t : Instant) :
  (fields t).length = 11
  := by
  have htime := t.timeOfDay_lt
  obtain ⟨hmonth, hday⟩ := date_bounds t
  simp only [fields, List.length_append, List.length_singleton,
    Decimal.length_paddedDigits 2 (by decide) (show t.date.month < 100 by omega),
    Decimal.length_paddedDigits 2 (by decide) (show t.date.day < 100 by omega),
    Decimal.length_paddedDigits 2 (by decide) (show t.timeOfDay / 3600 < 100 by omega),
    Decimal.length_paddedDigits 2 (by decide) (show t.timeOfDay / 60 % 60 < 100 by omega),
    Decimal.length_paddedDigits 2 (by decide) (show t.timeOfDay % 60 < 100 by omega)]

theorem short_octets {cs : List Char} (h : cs.length ≤ 15) :
  Der.Short (octets cs)
  := by
  have : 15 < Nat.pow 2 64 := by decide
  rw [Der.Short, octets, List.length_map]
  omega

/-- A time of the years 0 to 9999 is read back. -/
theorem read?_write {seconds : Int} (hfrom : 0 ≤ (Instant.ofSeconds seconds).date.year)
    (hto : (Instant.ofSeconds seconds).date.year < 10000) (rest : Octets) :
  read? (write seconds ++ rest) = some (seconds, rest)
  := by
  have hfields := withYear?_fields seconds
  obtain ⟨t, ht⟩ : ∃ t, t = Instant.ofSeconds seconds := ⟨_, rfl⟩
  rw [← ht] at hfrom hto hfields
  have hsmall : ∀ {width n : Nat}, ∀ c ∈ Decimal.paddedDigits width n ++ fields t, c.toNat < 256 := by
    intro width n c hc
    rcases List.mem_append.mp hc with hc | hc
    · apply toNat_lt_of_isDigit (Decimal.isDigit_of_mem_paddedDigits hc)
    · apply toNat_lt_of_mem_fields hc
  simp only [write, ← ht, fields_eq]
  split
  · rename_i hshort
    have hdigits : (Decimal.paddedDigits 2 (t.date.year % 100).toNat).length = 2 :=
      Decimal.length_paddedDigits _ (by decide) (show (t.date.year % 100).toNat < 100 by omega)
    have hlength : (Decimal.paddedDigits 2 (t.date.year % 100).toNat ++ fields t).length ≤ 15 := by
      rw [List.length_append, length_fields]
      omega
    have helement := Der.element?_write 23 (by decide) (short_octets hlength) rest
    have hyear : (if (t.date.year % 100).toNat < 50 then (2000 + (t.date.year % 100).toNat : Int)
        else 1900 + (t.date.year % 100).toNat) = t.date.year := by
      split <;> omega
    simp only [read?, helement, Option.bind_eq_bind, Option.bind_some, ofElement?, Der.written]
    rw [if_pos (by decide), characters_octets hsmall, pair?_paddedDigits (by omega)]
    simp only [Option.bind_some, hyear, hfields]
    rfl
  · have hdigits : (Decimal.paddedDigits 4 t.date.year.toNat).length = 4 :=
      Decimal.length_paddedDigits _ (by decide) (show t.date.year.toNat < 10000 by omega)
    have hlength : (Decimal.paddedDigits 4 t.date.year.toNat ++ fields t).length ≤ 15 := by
      rw [List.length_append, length_fields]
      omega
    have helement := Der.element?_write 24 (by decide) (short_octets hlength) rest
    obtain ⟨century, digits, n, hcentury, hn, hyear⟩ :=
      pair?_year (show t.date.year.toNat < 10000 by omega) (fields t)
    have hyear' : (century * 100 + n : Int) = t.date.year := by omega
    simp only [read?, helement, Option.bind_eq_bind, Option.bind_some, ofElement?, Der.written]
    rw [if_neg (by decide), if_pos (by decide), characters_octets hsmall, hcentury]
    simp only [Option.bind_some, hn, hyear', hfields]
    rfl

end CertificateTime

end CertKeeper
