import CertKeeper.Proofs.Certificate.Validity
import CertKeeper.Time.Rfc3339
import Mathlib.Algebra.GroupWithZero.Nat

/-!
# Moving instants

Outside leap seconds an instant is its nanoseconds since the start of 1970: the order and the
differences of such instants are those of their nanoseconds (`Instant.before_iff_unixNanos`,
`Instant.since_eq`), and a move adds to them (`Instant.add?_eq`). From anywhere, a longer move onwards
leads to no earlier instant, and beyond the calendar if a shorter one does (`Instant.add?_mono`,
`Instant.add?_eq_none_mono`). A time stamp is one of the years -1 to 10000 in universal time
(`Rfc3339.bounds_of_read?`), far from the ends of the calendar.
-/

namespace CertKeeper

namespace Instant

variable {t u : Instant} {delta delta' : Int}

/-! ### Nanoseconds -/

theorem toNat_emod_lt (nanos : Int) :
  (nanos % nanosPerSecond).toNat < 2 * nanosPerSecond
  := by
  have := Int.emod_lt_of_pos nanos (show (0 : Int) < nanosPerSecond by decide)
  simp only [nanosPerSecond] at *
  omega

/-- The instant of a number of nanoseconds since the start of 1970, outside leap seconds. -/
def ofUnixNanos (nanos : Int) : Instant :=
  ⟨nanos / nanosPerSecond, (nanos % nanosPerSecond).toNat, toNat_emod_lt nanos⟩

/-- The date of these nanoseconds since the start of 1970 is in the calendar. -/
def InCalendar (nanos : Int) : Prop :=
  firstSecond * nanosPerSecond ≤ nanos ∧ nanos < (lastSecond + 1) * nanosPerSecond

instance (nanos : Int) : Decidable (InCalendar nanos) := inferInstanceAs (Decidable (_ ∧ _))

/-- The instant of a number of nanoseconds, if its date is in the calendar. -/
def ofUnixNanos? (nanos : Int) : Option Instant :=
  if InCalendar nanos then some (ofUnixNanos nanos) else none

@[simp]
theorem unixNanos_ofUnixNanos (nanos : Int) :
  (ofUnixNanos nanos).unixNanos = nanos
  := by
  simp only [unixNanos, ofUnixNanos, nanosPerSecond]
  omega

@[simp]
theorem inLeapSecond_ofUnixNanos (nanos : Int) :
  (ofUnixNanos nanos).inLeapSecond = false
  := by
  rw [inLeapSecond, decide_eq_false_iff_not]
  simp only [ofUnixNanos, nanosPerSecond]
  omega

theorem ofUnixNanos?_eq_some {nanos : Int} :
  ofUnixNanos? nanos = some t ↔ InCalendar nanos ∧ t = ofUnixNanos nanos
  := by
  rw [ofUnixNanos?, Option.ite_none_right_eq_some, Option.some_inj, eq_comm (a := t)]

theorem ofUnixNanos?_eq_none {nanos : Int} :
  ofUnixNanos? nanos = none ↔ ¬ InCalendar nanos
  := by
  simp [ofUnixNanos?]

theorem nanos_lt_of_ordinary (h : t.inLeapSecond = false) :
  t.nanos < nanosPerSecond
  := by
  rw [inLeapSecond, decide_eq_false_iff_not] at h
  omega

/-- Outside leap seconds, the order of instants is that of their nanoseconds. -/
theorem before_iff_unixNanos (ht : t.inLeapSecond = false) (hu : u.inLeapSecond = false) :
  t.before u ↔ t.unixNanos < u.unixNanos
  := by
  have ht' := nanos_lt_of_ordinary ht
  have hu' := nanos_lt_of_ordinary hu
  simp only [before_iff, unixNanos, nanosPerSecond] at *
  omega

/-- Outside leap seconds, a difference of instants is that of their nanoseconds. -/
theorem since_eq (ht : t.inLeapSecond = false) (hu : u.inLeapSecond = false) :
  t.since u = t.unixNanos - u.unixNanos
  := by
  simp only [since, ht, hu, Bool.false_eq_true, if_false, ite_self, unixNanos, nanosPerSecond]
  omega

/-- A leap second counts at most as one second more or less. -/
theorem since_bounds (t u : Instant) :
  t.unixNanos - u.unixNanos - nanosPerSecond ≤ t.since u
    ∧ t.since u ≤ t.unixNanos - u.unixNanos + nanosPerSecond
  := by
  obtain ⟨leap, hleap, hsince⟩ : ∃ leap : Int, (-1 ≤ leap ∧ leap ≤ 1)
      ∧ t.since u = (t.seconds - u.seconds + leap) * nanosPerSecond + ((t.nanos : Int) - u.nanos) := by
    refine ⟨_, ?_, rfl⟩
    split
    · split <;> decide
    · split
      · split <;> decide
      · decide
  simp only [hsince, unixNanos, nanosPerSecond]
  omega

/-! ### Moves -/

/-- Seconds and nanoseconds are put together as nanoseconds. -/
theorem ofSecondsNanos?_eq (seconds nanos : Int) :
  ofSecondsNanos? seconds nanos = ofUnixNanos? (seconds * nanosPerSecond + nanos)
  := by
  have hnanos : (nanosPerSecond : Int) = 1000000000 := rfl
  have hcalendar : (firstSecond ≤ seconds + nanos / nanosPerSecond
      ∧ seconds + nanos / nanosPerSecond ≤ lastSecond)
      ↔ InCalendar (seconds * nanosPerSecond + nanos) := by
    simp only [InCalendar, hnanos]
    omega
  unfold ofSecondsNanos? ofUnixNanos?
  dsimp only
  by_cases h : InCalendar (seconds * nanosPerSecond + nanos)
  · rw [if_pos (hcalendar.mpr h), if_pos h]
    apply congrArg some
    apply eq_of_parts
    · simp only [ofUnixNanos, hnanos]
      omega
    · simp only [ofUnixNanos, hnanos]
      omega
  · rw [if_neg (mt hcalendar.mp h), if_neg h]

/-- Outside leap seconds, a move adds to the nanoseconds. -/
theorem add?_eq (ht : t.inLeapSecond = false) (delta : Int) :
  t.add? delta = ofUnixNanos? (t.unixNanos + delta)
  := by
  have hsum : (t.seconds + delta.tdiv nanosPerSecond) * nanosPerSecond
      + (t.nanos + delta.tmod nanosPerSecond) = t.unixNanos + delta := by
    have hsplit := Int.mul_tdiv_add_tmod delta nanosPerSecond
    rw [unixNanos, Int.add_mul]
    rw [Int.mul_comm] at hsplit
    omega
  rw [add?, if_neg (by rw [ht]; decide), ofSecondsNanos?_eq, hsum]

/-- A move from a leap second stays in it, or it is counted from the end or from the start of the leap
second. -/
theorem add?_of_leap (ht : t.inLeapSecond) (delta : Int) :
  (∃ u, t.add? delta = some u ∧ u.seconds = t.seconds ∧ u.nanos = t.nanos + delta)
    ∨ (2 * nanosPerSecond ≤ t.nanos + delta
      ∧ t.add? delta = ofUnixNanos? (t.unixNanos + delta - nanosPerSecond))
    ∨ (delta < 0 ∧ t.add? delta = ofUnixNanos? (t.unixNanos + delta))
  := by
  have hnanos : (nanosPerSecond : Nat) = 1000000000 := rfl
  have hleap : nanosPerSecond ≤ t.nanos := of_decide_eq_true ht
  have hbound := t.nanos_lt
  obtain ⟨whole, hwhole⟩ : ∃ whole, whole = delta.tdiv nanosPerSecond := ⟨_, rfl⟩
  obtain ⟨part, hpart⟩ : ∃ part, part = delta.tmod nanosPerSecond := ⟨_, rfl⟩
  have hsplit : nanosPerSecond * whole + part = delta := by
    rw [hwhole, hpart, Int.mul_tdiv_add_tmod]
  have hlow : -(nanosPerSecond : Int) < part := by
    rw [hpart]
    apply Int.lt_tmod_of_pos _ (by decide)
  have hhigh : part < nanosPerSecond := by
    rw [hpart]
    apply Int.tmod_lt_of_pos _ (by decide)
  have hsign : 0 ≤ delta → 0 ≤ part := by
    intro h
    rw [hpart]
    apply Int.tmod_nonneg _ h
  have hsign' : delta ≤ 0 → part ≤ 0 := by
    intro h
    have := Int.tmod_nonneg (nanosPerSecond : Int) (show 0 ≤ -delta by omega)
    rw [Int.neg_tmod] at this
    omega
  simp only [add?, if_pos ht, ofSecondsNanos?_eq, unixNanos, ← hwhole, ← hpart]
  simp only [hnanos] at *
  split
  · right
    left
    constructor
    · omega
    · congr 1
      omega
  · split
    · right
      right
      constructor
      · omega
      · congr 1
        omega
    · left
      rw [dif_pos (by omega)]
      refine ⟨_, rfl, rfl, ?_⟩
      simp only
      omega

/-- A longer move onwards does not lead to an earlier instant. -/
theorem add?_mono {v v' : Instant} (hdelta : 0 ≤ delta) (hle : delta ≤ delta')
    (h : t.add? delta = some v) (h' : t.add? delta' = some v') :
  ¬ v'.before v
  := by
  rw [before_iff]
  cases ht : t.inLeapSecond with
  | false =>
    rw [add?_eq ht, ofUnixNanos?_eq_some] at h h'
    obtain ⟨-, rfl⟩ := h
    obtain ⟨-, rfl⟩ := h'
    simp only [ofUnixNanos, nanosPerSecond]
    omega
  | true =>
    have hleaves : ∀ {d : Int} {w : Instant}, 0 ≤ d → t.add? d = some w →
        (w.seconds = t.seconds ∧ w.nanos = t.nanos + d)
          ∨ (2 * nanosPerSecond ≤ t.nanos + d ∧ w = ofUnixNanos (t.unixNanos + d - nanosPerSecond)) := by
      intro d w hd hw
      obtain ⟨u, hu, hstays⟩ | ⟨hlong, hu⟩ | ⟨hneg, -⟩ := add?_of_leap ht d
      · cases hu.symm.trans hw
        exact .inl hstays
      · exact .inr ⟨hlong, (ofUnixNanos?_eq_some.mp (hu.symm.trans hw)).2⟩
      · omega
    have hv := v.nanos_lt
    have hv' := v'.nanos_lt
    obtain ⟨hseconds, hnanos⟩ | ⟨hlong, rfl⟩ := hleaves hdelta h
    · obtain ⟨hseconds', hnanos'⟩ | ⟨hlong', rfl⟩ := hleaves (by omega) h'
      · omega
      · simp only [ofUnixNanos, unixNanos, nanosPerSecond] at *
        omega
    · obtain ⟨hseconds', hnanos'⟩ | ⟨hlong', rfl⟩ := hleaves (by omega) h'
      · omega
      · simp only [ofUnixNanos, unixNanos, nanosPerSecond] at *
        omega

/-- If a move onwards leads beyond the calendar, then a longer one does. -/
theorem add?_eq_none_mono (hfrom : firstSecond ≤ t.seconds) (hdelta : 0 ≤ delta) (hle : delta ≤ delta')
    (h : t.add? delta = none) :
  t.add? delta' = none
  := by
  have hnanos : (nanosPerSecond : Nat) = 1000000000 := rfl
  cases ht : t.inLeapSecond with
  | false =>
    rw [add?_eq ht, ofUnixNanos?_eq_none, InCalendar, unixNanos] at *
    simp only [hnanos] at *
    omega
  | true =>
    have hleap : nanosPerSecond ≤ t.nanos := of_decide_eq_true ht
    obtain ⟨u, hu, -⟩ | ⟨hlong, hu⟩ | ⟨hneg, -⟩ := add?_of_leap ht delta
    · cases hu.symm.trans h
    · obtain ⟨u', hu', -, hstays⟩ | ⟨hlong', hu'⟩ | ⟨hneg, -⟩ := add?_of_leap ht delta'
      · have := u'.nanos_lt
        omega
      · rw [hu, ofUnixNanos?_eq_none, InCalendar, unixNanos] at h
        rw [hu', ofUnixNanos?_eq_none, InCalendar, unixNanos]
        simp only [hnanos] at *
        omega
      · omega
    · omega

/-- A move that ends within the calendar leads somewhere. -/
theorem exists_add? (hfrom : (firstSecond + 1) * nanosPerSecond ≤ t.unixNanos + delta)
    (hto : t.unixNanos + delta < (lastSecond + 1) * nanosPerSecond) :
  ∃ u, t.add? delta = some u
  := by
  have hleads : ∀ nanos : Int, t.unixNanos + delta - nanosPerSecond ≤ nanos →
      nanos ≤ t.unixNanos + delta → ∃ u, ofUnixNanos? nanos = some u := by
    intro nanos hlow hhigh
    rw [Int.add_mul] at hfrom
    exact ⟨_, ofUnixNanos?_eq_some.mpr ⟨⟨by omega, by omega⟩, rfl⟩⟩
  cases ht : t.inLeapSecond with
  | false =>
    rw [add?_eq ht]
    apply hleads <;> omega
  | true =>
    obtain ⟨u, hu, -⟩ | ⟨-, hu⟩ | ⟨-, hu⟩ := add?_of_leap ht delta
    · exact ⟨u, hu⟩
    · rw [hu]
      apply hleads <;> omega
    · rw [hu]
      apply hleads <;> omega

end Instant

/-! ### Time stamps -/

namespace Decimal

theorem digitValue?_lt {c : Char} {d : Nat} (h : digitValue? c = some d) :
  d < 10
  := by
  obtain ⟨hdigit, heq⟩ := Option.ite_none_right_eq_some.mp h
  obtain rfl := Option.some.inj heq
  have hnine := (Bool.and_eq_true_iff.mp hdigit).2
  have hval : c.toNat ≤ 57 := of_decide_eq_true hnine
  have hzero : '0'.toNat = 48 := rfl
  omega

theorem valueFrom?_lt {cs : List Char} {acc n : Nat} (h : valueFrom? acc cs = some n) :
  n < (acc + 1) * 10 ^ cs.length
  := by
  induction cs generalizing acc with
  | nil =>
    cases h
    simp
  | cons c cs ih =>
    obtain ⟨d, hd, h⟩ := Option.bind_eq_some_iff.mp h
    have hdigit := digitValue?_lt hd
    calc n < (10 * acc + d + 1) * 10 ^ cs.length := ih h
      _ ≤ ((acc + 1) * 10) * 10 ^ cs.length := Nat.mul_le_mul_right _ (by omega)
      _ = (acc + 1) * 10 ^ (cs.length + 1) := by rw [Nat.pow_succ, Nat.mul_assoc, Nat.mul_comm 10]

end Decimal

namespace Rfc3339

theorem number?_lt {width n : Nat} {cs rest : List Char} (h : number? width cs = some (n, rest)) :
  n < 10 ^ width
  := by
  obtain ⟨hwidth, h⟩ := Option.ite_none_right_eq_some.mp h
  obtain ⟨value, hvalue, hn⟩ := Option.map_eq_some_iff.mp h
  cases hn
  have hlt := Decimal.valueFrom?_lt hvalue
  rw [List.length_take_of_le hwidth, Nat.zero_add, Nat.one_mul] at hlt
  apply hlt

theorem offsetSize?_bounds {cs : List Char} {offset : Int} (h : offsetSize? cs = some offset) :
  0 ≤ offset ∧ offset < 86400
  := by
  simp only [offsetSize?, Option.bind_eq_bind, Option.bind_eq_some_iff] at h
  obtain ⟨hours, -, rest, -, minutes, -, h⟩ := h
  obtain ⟨⟨-, hminutes, hhours⟩, h⟩ := Option.ite_none_right_eq_some.mp h
  obtain rfl := Option.some.inj h
  omega

/-- An offset is shorter than a day. -/
theorem offset?_bounds {cs : List Char} {offset : Int} (h : offset? cs = some offset) :
  -86400 < offset ∧ offset < 86400
  := by
  unfold offset? at h
  split at h
  · cases h
    decide
  · cases h
    decide
  · have := offsetSize?_bounds h
    omega
  · obtain ⟨size, hsize, rfl⟩ := Option.map_eq_some_iff.mp h
    have := offsetSize?_bounds hsize
    omega
  · obtain ⟨size, hsize, rfl⟩ := Option.map_eq_some_iff.mp h
    have := offsetSize?_bounds hsize
    omega
  · cases h

theorem daysInMonth_le (year : Int) (month : Nat) :
  Date.daysInMonth year month ≤ 31
  := by
  unfold Date.daysInMonth
  split
  · split <;> decide
  · decide
  · decide
  · decide
  · decide
  · decide

/-- A date of a year of four digits is one of the days from the first one of the year 0 to the first one
of the year 10000. -/
theorem dayNumber_bounds {year month day : Nat} {date : Date} (hyear : year < 10000)
    (h : Date.ofFields? year month day = some date) :
  Date.dayNumber ⟨0, 1, 1⟩ ≤ date.dayNumber ∧ date.dayNumber ≤ Date.dayNumber ⟨10000, 1, 1⟩
  := by
  obtain ⟨⟨hmonth, hmonth', hday, hday'⟩, h⟩ := Option.ite_none_right_eq_some.mp h
  obtain rfl := Option.some.inj h
  have hlength := daysInMonth_le year month
  rw [Date.dayNumber_newYear, Date.dayNumber_newYear]
  simp only [Date.dayNumber]
  split <;> omega

theorem ofFields?_bounds {date : Date} {hour minute second nanos : Nat} {offset : Int} {t : Instant}
    (h : ofFields? date hour minute second nanos offset = some t) :
  date.dayNumber * 86400 - offset ≤ t.seconds ∧ t.seconds < (date.dayNumber + 1) * 86400 - offset
  := by
  obtain ⟨hfields, h⟩ := Option.dite_none_right_eq_some.mp h
  obtain rfl := Option.some.inj h
  simp only [Instant.secondsPerDay]
  split <;> omega

/-- A time stamp is one of the years -1 to 10000 in universal time. -/
theorem bounds_of_read? {text : String} {t : Instant} (h : read? text = some t) :
  Validity.startOfYear (-1) ≤ t.seconds ∧ t.seconds < Validity.startOfYear 10001
  := by
  simp only [read?, Option.bind_eq_bind, Option.bind_eq_some_iff] at h
  obtain ⟨⟨year, _⟩, hyear, _, -, ⟨month, _⟩, -, _, -, ⟨day, _⟩, -, date, hdate, _, -, h⟩ := h
  split at h
  · cases h
  · simp only [Option.bind_eq_some_iff] at h
    obtain ⟨_, -, _, -, _, -, _, -, _, -, _, -, offset, hoffset, h⟩ := h
    have hdays := dayNumber_bounds (number?_lt hyear) hdate
    have htime := ofFields?_bounds h
    have hless := offset?_bounds hoffset
    simp only [Validity.startOfYear, Date.dayNumber_newYear, Instant.secondsPerDay] at *
    omega

end Rfc3339

end CertKeeper
