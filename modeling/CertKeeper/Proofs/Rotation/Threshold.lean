import CertKeeper.Proofs.Rotation.Due
import CertKeeper.Proofs.Time.Arithmetic

/-!
# From when on a certificate is due

The three times that make a certificate due, the end of its validity, the time at which a fifth of it is
left and the renewal time, are one threshold: the certificate is due from the earliest of them on.
`Metadata.dueFrom?` computes it from the annotations and the renewal time alone, and never fails
(`Metadata.exists_dueFrom?`), since time stamps lie far from the ends of the calendar. So whether a
certificate is due is a comparison with the clock (`Metadata.due_threshold`).
-/

namespace CertKeeper

namespace Instant

variable {t u v : Instant}

/-- The earlier one of two instants. -/
def earlier (t u : Instant) : Instant := if t.before u then t else u

theorem before_earlier_iff :
  v.before (t.earlier u) ↔ v.before t ∧ v.before u
  := by
  unfold earlier
  split <;> (simp only [before_iff] at *; omega)

theorem earlier_before_iff :
  (t.earlier u).before v ↔ t.before v ∨ u.before v
  := by
  unfold earlier
  split <;> (simp only [before_iff] at *; omega)

theorem inLeapSecond_earlier (ht : t.inLeapSecond = false) (hu : u.inLeapSecond = false) :
  (t.earlier u).inLeapSecond = false
  := by
  unfold earlier
  split
  · apply ht
  · apply hu

theorem unixNanos_earlier (ht : t.inLeapSecond = false) (hu : u.inLeapSecond = false) :
  (t.earlier u).unixNanos = min t.unixNanos u.unixNanos
  := by
  unfold earlier
  split
  · rename_i h
    rw [before_iff_unixNanos ht hu] at h
    omega
  · rename_i h
    rw [before_iff_unixNanos ht hu] at h
    omega

end Instant

namespace Validity

variable {notBefore notAfter now : Instant} {refresh refresh' : Duration}

/-! ### The earliest of the three times -/

/-- The instant from which on a certificate with a recorded validity is due. -/
def dueFrom (notBefore notAfter : Instant) (refresh : Duration) : Except Stop Instant := do
  let latest ← latest notBefore notAfter
  return notAfter.earlier (latest.earlier (refreshAt notBefore notAfter refresh))

/-- The nanoseconds of that instant, if the validity neither starts nor ends in a leap second. -/
def dueNanos (notBefore notAfter : Int) (refresh : Duration) : Int :=
  min notAfter (min (notAfter - (notAfter - notBefore) / 5)
    (if refresh.nanos ≤ longest ∧ Instant.InCalendar (notBefore + refresh.nanos)
      then notBefore + refresh.nanos else notAfter))

theorem dueFrom_eq_ok {t : Instant} :
  dueFrom notBefore notAfter refresh = .ok t
    ↔ ∃ late, latest notBefore notAfter = .ok late
      ∧ notAfter.earlier (late.earlier (refreshAt notBefore notAfter refresh)) = t
  := by
  rw [dueFrom, bind_eq_ok]
  simp only [pure, Except.pure, Except.ok.injEq]

/-- A certificate is due from that instant on. -/
theorem due?_of_dueFrom {t : Instant} (h : dueFrom notBefore notAfter refresh = .ok t) (now : Instant) :
  ∃ reason?, due? notBefore notAfter refresh now = .ok reason? ∧ (reason? = none ↔ now.before t)
  := by
  obtain ⟨late, hlatest, rfl⟩ := dueFrom_eq_ok.mp h
  rw [Instant.before_earlier_iff, Instant.before_earlier_iff]
  simp only [due?, hlatest, ok_bind, Instant.notBefore_iff]
  split
  · rename_i hend
    refine ⟨_, rfl, ?_⟩
    simp [hend]
  · rename_i hend
    split
    · rename_i hlate
      refine ⟨_, rfl, ?_⟩
      simp [hlate]
    · rename_i hlate
      split
      · rename_i hrefresh
        refine ⟨_, rfl, ?_⟩
        simp [hrefresh]
      · rename_i hrefresh
        refine ⟨none, rfl, ?_⟩
        simp only [not_not] at hend hlate hrefresh
        simp [hend, hlate, hrefresh]

/-! ### No overflow -/

/-- The time at which a fifth of a validity is left can be computed for all time stamps. -/
theorem exists_latest_of_read? {text text' : String} (hnotBefore : Rfc3339.read? text = some notBefore)
    (hnotAfter : Rfc3339.read? text' = some notAfter) :
  ∃ late, latest notBefore notAfter = .ok late
  := by
  obtain ⟨hlow, hhigh⟩ := Rfc3339.bounds_of_read? hnotBefore
  obtain ⟨hlow', hhigh'⟩ := Rfc3339.bounds_of_read? hnotAfter
  have hfirst : Instant.firstSecond = -8334601228800 := by decide
  have hlast : Instant.lastSecond = 8210266876799 := by decide
  have hstart : startOfYear (-1) = -62198755200 := by decide
  have hend : startOfYear 10001 = 253433923200 := by decide
  have hsince := Instant.since_bounds notAfter notBefore
  have hnanos := notBefore.nanos_lt
  have hnanos' := notAfter.nanos_lt
  obtain ⟨late, hlate⟩ : ∃ late, notAfter.add? (-(notAfter.since notBefore / 5)) = some late := by
    apply Instant.exists_add?
    · simp only [Instant.unixNanos, nanosPerSecond] at *
      omega
    · simp only [Instant.unixNanos, nanosPerSecond] at *
      omega
  exact ⟨late, by rw [latest, hlate]⟩

/-! ### Times outside leap seconds -/

/-- Outside leap seconds, a fifth of the validity is taken back from its end. -/
theorem unixNanos_latest {late : Instant} (hnotBefore : notBefore.inLeapSecond = false)
    (hnotAfter : notAfter.inLeapSecond = false) (h : latest notBefore notAfter = .ok late) :
  late.inLeapSecond = false
    ∧ late.unixNanos = notAfter.unixNanos - (notAfter.unixNanos - notBefore.unixNanos) / 5
  := by
  rw [latest, Instant.add?_eq hnotAfter, Instant.since_eq hnotAfter hnotBefore] at h
  split at h
  · cases h
  · rename_i t ht
    cases h
    obtain ⟨-, rfl⟩ := Instant.ofUnixNanos?_eq_some.mp ht
    rw [Instant.unixNanos_ofUnixNanos]
    exact ⟨Instant.inLeapSecond_ofUnixNanos _, rfl⟩

/-- Outside leap seconds, the renewal time is added to the start of the validity. -/
theorem unixNanos_refreshAt (hnotBefore : notBefore.inLeapSecond = false)
    (hnotAfter : notAfter.inLeapSecond = false) (refresh : Duration) :
  (refreshAt notBefore notAfter refresh).inLeapSecond = false
    ∧ (refreshAt notBefore notAfter refresh).unixNanos
      = if refresh.nanos ≤ longest ∧ Instant.InCalendar (notBefore.unixNanos + refresh.nanos)
        then notBefore.unixNanos + refresh.nanos else notAfter.unixNanos
  := by
  rw [refreshAt, Instant.add?_eq hnotBefore]
  by_cases hlong : longest < refresh.nanos
  · rw [if_pos hlong, if_neg (by omega)]
    exact ⟨hnotAfter, rfl⟩
  · rw [if_neg hlong]
    by_cases hcalendar : Instant.InCalendar (notBefore.unixNanos + refresh.nanos)
    · rw [if_pos ⟨by omega, hcalendar⟩, Instant.ofUnixNanos?, if_pos hcalendar]
      exact ⟨Instant.inLeapSecond_ofUnixNanos _, Instant.unixNanos_ofUnixNanos _⟩
    · rw [if_neg (fun h => hcalendar h.2), Instant.ofUnixNanos?, if_neg hcalendar]
      exact ⟨hnotAfter, rfl⟩

/-- Outside leap seconds, a certificate is due from the least of the three times on. -/
theorem unixNanos_dueFrom {t : Instant} (hnotBefore : notBefore.inLeapSecond = false)
    (hnotAfter : notAfter.inLeapSecond = false) (h : dueFrom notBefore notAfter refresh = .ok t) :
  t.inLeapSecond = false ∧ t.unixNanos = dueNanos notBefore.unixNanos notAfter.unixNanos refresh
  := by
  obtain ⟨late, hlatest, rfl⟩ := dueFrom_eq_ok.mp h
  obtain ⟨hlate, hlateNanos⟩ := unixNanos_latest hnotBefore hnotAfter hlatest
  obtain ⟨hrefresh, hrefreshNanos⟩ := unixNanos_refreshAt hnotBefore hnotAfter refresh
  have hinner := Instant.inLeapSecond_earlier hlate hrefresh
  constructor
  · apply Instant.inLeapSecond_earlier hnotAfter hinner
  · rw [Instant.unixNanos_earlier hnotAfter hinner, Instant.unixNanos_earlier hlate hrefresh, hlateNanos,
      hrefreshNanos, dueNanos]

/-! ### Longer renewal times -/

/-- A longer renewal time does not end earlier, unless it leads beyond the calendar. -/
theorem refreshAt_mono (notAfter : Instant) (hfrom : Instant.firstSecond ≤ notBefore.seconds)
    (hle : refresh.nanos ≤ refresh'.nanos) :
  refreshAt notBefore notAfter refresh' = notAfter
    ∨ ¬ (refreshAt notBefore notAfter refresh').before (refreshAt notBefore notAfter refresh)
  := by
  unfold refreshAt
  split
  · exact .inl rfl
  · rw [if_neg (by omega)]
    cases hadd' : notBefore.add? refresh'.nanos with
    | none => exact .inl rfl
    | some v' =>
      cases hadd : notBefore.add? refresh.nanos with
      | none =>
        have := Instant.add?_eq_none_mono hfrom (by omega) (Int.ofNat_le.mpr hle) hadd
        cases hadd'.symm.trans this
      | some v =>
        right
        apply Instant.add?_mono (by omega) (Int.ofNat_le.mpr hle) hadd hadd'

/-- A certificate with a longer renewal time is not due earlier. -/
theorem dueFrom_mono {t t' : Instant} (hfrom : Instant.firstSecond ≤ notBefore.seconds)
    (hle : refresh.nanos ≤ refresh'.nanos) (h : dueFrom notBefore notAfter refresh = .ok t)
    (h' : dueFrom notBefore notAfter refresh' = .ok t') :
  ¬ t'.before t
  := by
  obtain ⟨late, hlatest, rfl⟩ := dueFrom_eq_ok.mp h
  obtain ⟨late', hlatest', rfl⟩ := dueFrom_eq_ok.mp h'
  cases hlatest.symm.trans hlatest'
  have hlater := refreshAt_mono notAfter hfrom hle
  simp only [Instant.before_earlier_iff, Instant.earlier_before_iff]
  -- Beyond the calendar, the end of the validity stands for the renewal time.
  obtain heq | hlater := hlater
  · rw [heq]
    simp only [Instant.before_iff]
    omega
  · simp only [Instant.before_iff] at *
    omega

end Validity

/-! ### Annotations -/

namespace Metadata

/-- The instant from which on a certificate is due by what is recorded of it, or none if it is due at
all times. -/
def dueFrom? (m : Metadata) (refresh : Duration) : Except Stop (Option Instant) :=
  match m.timeAt? AnnotationKey.notBefore, m.timeAt? AnnotationKey.notAfter with
  | some notBefore, some notAfter => (Validity.dueFrom notBefore notAfter refresh).map some
  | _, _ => .ok none

variable {m : Metadata} {notBefore notAfter : Instant}

theorem exists_read?_of_timeAt? {name : String} {t : Instant} (h : m.timeAt? name = some t) :
  ∃ text, Rfc3339.read? text = some t
  := by
  obtain ⟨text, -, hread⟩ := Option.bind_eq_some_iff.mp h
  exact ⟨text, hread⟩

/-- The instant from which on a certificate is due can always be computed, and the certificate is due
from then on. -/
theorem exists_dueFrom? (m : Metadata) (refresh : Duration) :
  ∃ start, m.dueFrom? refresh = .ok start
    ∧ (start = none ↔ m.timeAt? AnnotationKey.notBefore = none ∨ m.timeAt? AnnotationKey.notAfter = none)
    ∧ ∀ now, ∃ reason?, m.due? refresh now = .ok reason?
      ∧ (reason? = none ↔ ∃ t, start = some t ∧ now.before t)
  := by
  unfold dueFrom? due?
  cases hnotBefore : m.timeAt? AnnotationKey.notBefore with
  | none =>
    refine ⟨none, rfl, by simp, ?_⟩
    intro now
    exact ⟨_, rfl, by simp⟩
  | some notBefore =>
    cases hnotAfter : m.timeAt? AnnotationKey.notAfter with
    | none =>
      refine ⟨none, rfl, by simp, ?_⟩
      intro now
      exact ⟨_, rfl, by simp⟩
    | some notAfter =>
      obtain ⟨text, hread⟩ := exists_read?_of_timeAt? hnotBefore
      obtain ⟨text', hread'⟩ := exists_read?_of_timeAt? hnotAfter
      obtain ⟨late, hlatest⟩ := Validity.exists_latest_of_read? hread hread'
      obtain ⟨t, ht⟩ : ∃ t, Validity.dueFrom notBefore notAfter refresh = .ok t :=
        ⟨_, Validity.dueFrom_eq_ok.mpr ⟨late, hlatest, rfl⟩⟩
      refine ⟨some t, ?_, by simp, ?_⟩
      · simp only [ht]
        rfl
      · intro now
        obtain ⟨reason?, hdue, hiff⟩ := Validity.due?_of_dueFrom ht now
        exact ⟨reason?, hdue, by simp [hiff]⟩

/-- Of an ordinary recorded validity, the certificate is due from the least of the three times on. -/
theorem unixNanos_dueFrom? {refresh : Duration} {start : Option Instant}
    (hstart : m.dueFrom? refresh = .ok start)
    (hnotBefore : m.timeAt? AnnotationKey.notBefore = some notBefore)
    (hnotAfter : m.timeAt? AnnotationKey.notAfter = some notAfter)
    (hordinary : notBefore.inLeapSecond = false) (hordinary' : notAfter.inLeapSecond = false) :
  ∃ t, start = some t ∧ t.inLeapSecond = false
    ∧ t.unixNanos = Validity.dueNanos notBefore.unixNanos notAfter.unixNanos refresh
  := by
  simp only [dueFrom?, hnotBefore, hnotAfter] at hstart
  cases hfrom : Validity.dueFrom notBefore notAfter refresh with
  | error e =>
    rw [hfrom] at hstart
    cases hstart
  | ok t =>
    rw [hfrom] at hstart
    cases hstart
    exact ⟨t, rfl, Validity.unixNanos_dueFrom hordinary hordinary' hfrom⟩

/-- A certificate with a longer renewal time is not due earlier. -/
theorem dueFrom?_mono {refresh refresh' : Duration} (hle : refresh.nanos ≤ refresh'.nanos)
    {t t' : Instant} (h : m.dueFrom? refresh = .ok (some t)) (h' : m.dueFrom? refresh' = .ok (some t')) :
  ¬ t'.before t
  := by
  unfold dueFrom? at h h'
  split at h
  · rename_i notBefore notAfter hnotBefore hnotAfter
    simp only [hnotBefore, hnotAfter] at h'
    obtain ⟨text, hread⟩ := exists_read?_of_timeAt? hnotBefore
    have hfrom : Instant.firstSecond ≤ notBefore.seconds := by
      have := (Rfc3339.bounds_of_read? hread).1
      have hfirst : Instant.firstSecond ≤ Validity.startOfYear (-1) := by decide
      omega
    cases hdue : Validity.dueFrom notBefore notAfter refresh with
    | error e =>
      rw [hdue] at h
      cases h
    | ok u =>
      cases hdue' : Validity.dueFrom notBefore notAfter refresh' with
      | error e =>
        rw [hdue'] at h'
        cases h'
      | ok u' =>
        rw [hdue] at h
        rw [hdue'] at h'
        cases h
        cases h'
        apply Validity.dueFrom_mono hfrom hle hdue hdue'
  · cases h

/-- Whether a certificate is due never overflows, whatever its annotations and the renewal time are. It
is due from an instant on that the annotations and the renewal time fix, and at all times exactly if one
of the two time stamps is missing or cannot be read. Outside leap seconds the instant is the least of
the end of the validity, of the time at which a fifth of it is left, and of the renewal time. So what is
due stays due, and a longer renewal time makes nothing due earlier. -/
theorem due_threshold (m : Metadata) :
  ∃ start : Duration → Option Instant,
    (∀ refresh, m.dueFrom? refresh = .ok (start refresh))
    ∧ (∀ refresh now, ∃ reason?, m.due? refresh now = .ok reason?
      ∧ (reason? ≠ none ↔ ∀ t, start refresh = some t → now.notBefore t))
    ∧ (∀ refresh, start refresh = none
      ↔ m.timeAt? AnnotationKey.notBefore = none ∨ m.timeAt? AnnotationKey.notAfter = none)
    ∧ (∀ refresh, start refresh = none ↔ ∀ now, m.due? refresh now ≠ .ok none)
    ∧ (∀ refresh notBefore notAfter, m.timeAt? AnnotationKey.notBefore = some notBefore →
      m.timeAt? AnnotationKey.notAfter = some notAfter →
      notBefore.inLeapSecond = false → notAfter.inLeapSecond = false →
      ∃ t, start refresh = some t ∧ t.inLeapSecond = false
        ∧ t.unixNanos = Validity.dueNanos notBefore.unixNanos notAfter.unixNanos refresh)
    ∧ (∀ refresh now now', now'.notBefore now →
      m.due? refresh now ≠ .ok none → m.due? refresh now' ≠ .ok none)
    ∧ ∀ refresh refresh' now, refresh.nanos ≤ refresh'.nanos →
      m.due? refresh' now ≠ .ok none → m.due? refresh now ≠ .ok none
  := by
  choose start hstart hnone hdue using m.exists_dueFrom?
  have hkept : ∀ refresh now, m.due? refresh now = .ok none
      ↔ ∃ t, start refresh = some t ∧ now.before t := by
    intro refresh now
    obtain ⟨reason?, hreason, hiff⟩ := hdue refresh now
    rw [hreason, Except.ok.injEq, hiff]
  refine ⟨start, hstart, ?_, hnone, ?_, ?_, ?_, ?_⟩
  · intro refresh now
    obtain ⟨reason?, hreason, hiff⟩ := hdue refresh now
    refine ⟨reason?, hreason, ?_⟩
    rw [Ne, hiff]
    simp [Instant.notBefore]
  · intro refresh
    constructor
    · intro hnone' now
      rw [Ne, hkept, hnone']
      rintro ⟨t, ⟨⟩, -⟩
    · intro halways
      cases ht : start refresh with
      | none => rfl
      | some t =>
        -- A second before the instant, the certificate is not due.
        have hearly : (Instant.ofSeconds (t.seconds - 1)).before t := by
          simp only [Instant.before_iff, Instant.ofSeconds]
          omega
        exact absurd ((hkept refresh _).mpr ⟨t, ht, hearly⟩) (halways _)
  · intro refresh notBefore notAfter hnotBefore hnotAfter hordinary hordinary'
    apply unixNanos_dueFrom? (hstart refresh) hnotBefore hnotAfter hordinary hordinary'
  · intro refresh now now' hlater
    rw [Ne, Ne, hkept, hkept]
    rintro hdue ⟨t, ht, hbefore⟩
    rw [Instant.notBefore_iff] at hlater
    exact hdue ⟨t, ht, Instant.before_of_not_before hlater hbefore⟩
  · intro refresh refresh' now hle
    rw [Ne, Ne, hkept, hkept]
    rintro hdue ⟨t, ht, hbefore⟩
    cases ht' : start refresh' with
    | none =>
      have := (hnone refresh).mpr ((hnone refresh').mp ht')
      cases ht.symm.trans this
    | some t' =>
      have hlater := dueFrom?_mono hle (ht ▸ hstart refresh) (ht' ▸ hstart refresh')
      apply hdue
      refine ⟨t', ht', ?_⟩
      simp only [Instant.before_iff] at *
      omega

end Metadata

end CertKeeper
