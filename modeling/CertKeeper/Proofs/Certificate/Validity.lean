import CertKeeper.Certificate.Authority
import CertKeeper.Proofs.Time.Calendar
import CertKeeper.Proofs.Time.Instant

/-!
# The validity of new certificates

A certificate can be issued at times from the year 0 on for lifetimes that end before the year
10000 (`Validity.starting_eq`), and at no others (`Validity.possible_of_starting`). Its validity
lasts the whole seconds of the lifetime, also if it starts in a leap second. A lifetime that leads out
of the calendar overflows (`Validity.starting_eq_overflow`).
-/

namespace CertKeeper

namespace Validity

/-! ### Years -/

theorem startOfYear_zero :
  startOfYear 0 = -62167219200
  := by
  decide

theorem startOfYear_tenThousand :
  startOfYear 10000 = 253402300800
  := by
  decide

/-- A second of the years 0 to 9999 has a date in one of them. -/
theorem year_bounds {seconds : Int} (hfrom : startOfYear 0 ≤ seconds)
    (hto : seconds < startOfYear 10000) :
  0 ≤ (Instant.ofSeconds seconds).date.year ∧ (Instant.ofSeconds seconds).date.year < 10000
  := by
  have hyear := Date.year_bounds (seconds / Instant.secondsPerDay)
  rw [startOfYear] at hfrom hto
  simp only [Instant.date, Instant.ofSeconds, Instant.secondsPerDay] at *
  constructor
  · apply Int.not_lt.mp
    intro hbefore
    have := Date.dayNumber_year_le (Int.add_one_le_of_lt hbefore)
    omega
  · apply Int.not_le.mp
    intro hafter
    have := Date.dayNumber_year_le hafter
    omega

/-! ### Adding a lifetime -/

theorem seconds_of_ofSecondsNanos? {seconds nanos : Int} {t : Instant}
    (h : Instant.ofSecondsNanos? seconds nanos = some t) :
  t.seconds = seconds + nanos / nanosPerSecond
  := by
  unfold Instant.ofSecondsNanos? at h
  dsimp only at h
  split at h
  · cases h
    rfl
  · cases h

theorem exists_ofSecondsNanos? {seconds nanos : Int}
    (hfrom : startOfYear 0 ≤ seconds + nanos / nanosPerSecond)
    (hto : seconds + nanos / nanosPerSecond < startOfYear 10000) :
  ∃ t, Instant.ofSecondsNanos? seconds nanos = some t
  := by
  have hfirst : Instant.firstSecond = -8334601228800 := by decide
  have hlast : Instant.lastSecond = 8210266876799 := by decide
  rw [startOfYear_zero] at hfrom
  rw [startOfYear_tenThousand] at hto
  unfold Instant.ofSecondsNanos?
  dsimp only
  rw [if_pos (by rw [hfirst, hlast]; omega)]
  exact ⟨_, rfl⟩

theorem fraction_ediv (lifetime : Duration) :
  (lifetime.fraction : Int) / nanosPerSecond = 0
  := by
  have hfraction : lifetime.fraction < nanosPerSecond := Nat.mod_lt _ (by decide)
  apply Int.ediv_eq_zero_of_lt <;> omega

variable {now : Instant} {lifetime : Duration}

/-- What is added to the start of a second, or of a leap second. -/
theorem add?_truncate (now : Instant) (lifetime : Duration) :
  now.truncate.add? lifetime.nanos
      = Instant.ofSecondsNanos? (now.seconds + lifetime.seconds) lifetime.fraction
    ∨ lifetime.seconds = 0 ∧ ∃ stop, now.truncate.add? lifetime.nanos = some stop
      ∧ stop.seconds = now.seconds
  := by
  have hwhole : (lifetime.nanos : Int).tdiv nanosPerSecond = (lifetime.seconds : Nat) := by
    rw [Int.tdiv_eq_ediv_of_nonneg (by omega)]
    rfl
  have hpart : (lifetime.nanos : Int).tmod nanosPerSecond = (lifetime.fraction : Nat) := by
    rw [Int.tmod_eq_emod_of_nonneg (by omega)]
    rfl
  have hfraction : lifetime.fraction < nanosPerSecond := Nat.mod_lt _ (by decide)
  have hnanos : nanosPerSecond = 1000000000 := rfl
  rw [hnanos] at hfraction
  simp only [Instant.add?, hwhole, hpart]
  by_cases hleap : now.inLeapSecond
  · have htruncate : now.truncate = ⟨now.seconds, nanosPerSecond, by decide⟩ := if_pos hleap
    have hstays : Instant.inLeapSecond ⟨now.seconds, nanosPerSecond, by decide⟩ = true := by
      simp [Instant.inLeapSecond]
    rw [htruncate, if_pos hstays]
    simp only [hnanos]
    by_cases hsecond : 0 < lifetime.seconds
    · left
      rw [if_pos (.inl (by omega))]
      congr 1
      omega
    · right
      rw [if_neg (by omega), if_neg (by omega), dif_pos (by omega)]
      exact ⟨by omega, _, rfl, rfl⟩
  · have htruncate : now.truncate = Instant.ofSeconds now.seconds := if_neg hleap
    have hstays : ¬ (Instant.ofSeconds now.seconds).inLeapSecond = true := by simp
    left
    rw [htruncate, if_neg hstays]
    simp only [Instant.ofSeconds]
    congr 1
    omega

/-- A lifetime that is added to the start of a second ends its whole seconds later. -/
theorem seconds_of_add? {stop : Instant} (h : now.truncate.add? lifetime.nanos = some stop) :
  stop.seconds = now.seconds + lifetime.seconds
  := by
  rcases add?_truncate now lifetime with heq | ⟨hnone, stop', heq, hseconds⟩
  · rw [heq] at h
    have := seconds_of_ofSecondsNanos? h
    rw [fraction_ediv] at this
    omega
  · rw [heq] at h
    cases h
    omega

/-- A lifetime that is added to a time in the calendar leads out of it exactly if its end is after the
last second of the calendar. -/
theorem add?_truncate_eq_none (hfrom : Instant.firstSecond ≤ now.seconds)
    (hto : now.seconds ≤ Instant.lastSecond) :
  now.truncate.add? lifetime.nanos = none ↔ Instant.lastSecond < now.seconds + lifetime.seconds
  := by
  rcases add?_truncate now lifetime with heq | ⟨hnone, stop, heq, -⟩
  · rw [heq]
    unfold Instant.ofSecondsNanos?
    dsimp only
    rw [fraction_ediv]
    split
    · simp
      omega
    · simp
      omega
  · rw [heq]
    simp
    omega

theorem exists_add? (hfrom : startOfYear 0 ≤ now.seconds)
    (hto : now.seconds + lifetime.seconds < startOfYear 10000) :
  ∃ stop, now.truncate.add? lifetime.nanos = some stop
  := by
  have hyears : Instant.firstSecond ≤ startOfYear 0 ∧ startOfYear 10000 ≤ Instant.lastSecond := by decide
  apply Option.ne_none_iff_exists'.mp
  rw [Ne, add?_truncate_eq_none (by omega) (by omega)]
  omega

/-! ### The validity -/

/-- A certificate can be issued at a time and for a lifetime. -/
def Possible (now : Instant) (lifetime : Duration) : Prop :=
  startOfYear 0 ≤ now.seconds ∧ now.seconds + lifetime.seconds < startOfYear 10000

/-- Certificates can be issued from 1970 on, if they do not last beyond the year 9999. -/
theorem possible_ofSeconds {n : Nat} (h : n + lifetime.seconds < 253402300800) :
  Possible (.ofSeconds n) lifetime
  := by
  constructor
  · show startOfYear 0 ≤ (n : Int)
    rw [startOfYear_zero]
    omega
  · show (n : Int) + lifetime.seconds < _
    rw [startOfYear_tenThousand]
    omega

theorem checkTime_eq_ok {seconds : Int} :
  checkTime seconds = .ok () ↔ startOfYear (-9999) ≤ seconds ∧ seconds < startOfYear 10000
  := by
  unfold checkTime
  split
  · rename_i hyears
    exact ⟨fun _ => hyears, fun _ => rfl⟩
  · rename_i hyears
    constructor
    · intro h
      cases h
    · intro h
      exact absurd h hyears

/-- The validity of a certificate that can be issued. -/
theorem starting_eq (h : Possible now lifetime) :
  starting now lifetime = .ok ⟨now.seconds, now.seconds + lifetime.seconds, serialAt now⟩
  := by
  obtain ⟨hfrom, hto⟩ := h
  obtain ⟨stop, hstop⟩ := exists_add? hfrom hto
  have hseconds := seconds_of_add? hstop
  have hyears : startOfYear (-9999) ≤ startOfYear 0 := by decide
  have hnow : checkTime now.seconds = .ok () := checkTime_eq_ok.mpr (by omega)
  have hend : checkTime (now.seconds + lifetime.seconds) = .ok () := checkTime_eq_ok.mpr (by omega)
  have hyear : ¬ now.seconds < startOfYear 0 := Int.not_lt.mpr hfrom
  have hlongest : ¬ longest < lifetime.nanos := by
    rw [startOfYear_zero] at hfrom
    rw [startOfYear_tenThousand] at hto
    simp only [longest, Duration.seconds, nanosPerSecond] at *
    omega
  rw [starting, if_neg hlongest, hstop]
  simp only [hnow, hseconds, hend, if_neg hyear]
  rfl

/-- A certificate is issued only if it can be. -/
theorem possible_of_starting {v : Validity} (h : starting now lifetime = .ok v) :
  Possible now lifetime
  := by
  by_cases hlongest : longest < lifetime.nanos
  · rw [starting, if_pos hlongest] at h
    cases h
  · rw [starting, if_neg hlongest] at h
    cases hstop : now.truncate.add? lifetime.nanos with
    | none =>
      rw [hstop] at h
      cases h
    | some stop =>
      have hseconds := seconds_of_add? hstop
      rw [hstop] at h
      cases hnow : checkTime now.seconds with
      | error e =>
        simp only [hnow] at h
        cases h
      | ok _ =>
        cases hend : checkTime stop.seconds with
        | error e =>
          simp only [hnow, hend] at h
          cases h
        | ok _ =>
          by_cases hyear : now.seconds < startOfYear 0
          · simp only [hnow, hend, if_pos hyear] at h
            cases h
          · constructor
            · apply Int.not_lt.mp hyear
            · rw [← hseconds]
              apply (checkTime_eq_ok.mp hend).2

/-- What is known about the validity of a certificate. -/
theorem starting_eq_ok {v : Validity} (h : starting now lifetime = .ok v) :
  v = ⟨now.seconds, now.seconds + lifetime.seconds, serialAt now⟩ ∧ Possible now lifetime
  := by
  have hpossible := possible_of_starting h
  rw [starting_eq hpossible] at h
  cases h
  exact ⟨rfl, hpossible⟩

/-- A check of a time does not overflow, so what overflows is what comes after it. -/
theorem checkTime_bind_eq_overflow {α : Type} {seconds : Int} {f : Unit → Except Stop α} :
  checkTime seconds >>= f = .error .overflow ↔ checkTime seconds = .ok () ∧ f () = .error .overflow
  := by
  cases hcheck : checkTime seconds with
  | ok _ => exact ⟨fun h => ⟨rfl, h⟩, fun h => h.2⟩
  | error stop =>
    constructor
    · rintro ⟨⟩
      unfold checkTime at hcheck
      split at hcheck <;> cases hcheck
    · rintro ⟨⟨⟩, -⟩

/-- A lifetime overflows from a time on: dates can be moved by it, but its end is beyond the calendar, or
it starts before the year 0, and the years of both ends have at most four digits. -/
def Overflows (now : Instant) (lifetime : Duration) : Prop :=
  lifetime.nanos ≤ longest ∧ (Instant.lastSecond < now.seconds + lifetime.seconds
    ∨ (startOfYear (-9999) ≤ now.seconds ∧ now.seconds < startOfYear 0
      ∧ now.seconds + lifetime.seconds < startOfYear 10000))

/-- At a time in the calendar, these are the lifetimes for which the validity cannot be computed. -/
theorem starting_eq_overflow (hfrom : Instant.firstSecond ≤ now.seconds)
    (hto : now.seconds ≤ Instant.lastSecond) :
  starting now lifetime = .error .overflow ↔ Overflows now lifetime
  := by
  have hbeyond : now.truncate.add? lifetime.nanos = none
      ↔ Instant.lastSecond < now.seconds + lifetime.seconds := add?_truncate_eq_none hfrom hto
  have hyears : startOfYear 0 < startOfYear 10000 ∧ startOfYear 10000 ≤ Instant.lastSecond := by decide
  unfold Overflows
  by_cases hlongest : longest < lifetime.nanos
  · rw [starting, if_pos hlongest]
    constructor
    · intro h
      cases h
    · rintro ⟨h, -⟩
      omega
  · rw [starting, if_neg hlongest]
    cases hstop : now.truncate.add? lifetime.nanos with
    | none =>
      have hafter := hbeyond.mp hstop
      exact ⟨fun _ => ⟨by omega, .inl hafter⟩, fun _ => rfl⟩
    | some stop =>
      have hwithin : ¬ Instant.lastSecond < now.seconds + lifetime.seconds := by
        rw [← hbeyond, hstop]
        simp
      have hseconds := seconds_of_add? hstop
      show (checkTime now.seconds >>= fun _ => checkTime stop.seconds >>= fun _ =>
        if now.seconds < startOfYear 0 then .error .overflow
        else .ok (⟨now.seconds, stop.seconds, serialAt now⟩ : Validity)) = .error .overflow ↔ _
      rw [checkTime_bind_eq_overflow, checkTime_bind_eq_overflow, checkTime_eq_ok, checkTime_eq_ok, hseconds]
      split
      · simp only [and_true]
        omega
      · constructor
        · rintro ⟨-, -, ⟨⟩⟩
        · omega

end Validity

end CertKeeper
