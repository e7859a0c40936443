import Mathlib.Algebra.Order.Field.Basic
import Mathlib.Algebra.Order.Field.Rat
import Mathlib.Tactic.Linarith
import Mathlib.Tactic.Positivity
import CertKeeper.Proofs.Rotation.Due

/-!
# The schedule of renewals

A certificate that was issued for a lifetime is kept as long as an instant comes before two points of
time: the renewal time after its start, and the point at which a fifth of its whole seconds is left. Both
are fractions of seconds, and `Instant.EarlierThan` compares an instant with them exactly. The fifth of a
validity in nanoseconds has no remainder, so nothing is rounded (`Validity.latest_exact`), and a renewal
time that leads beyond the calendar is later than the end of the validity
(`Validity.before_refreshAt_iff`). So what `Validity.due?` decides is the schedule
(`Validity.due?_eq_none_iff`), also for a secret whose annotations were written and are read again
(`Secret.IssuedAt.due?_eq_none_iff`).
-/

namespace CertKeeper

namespace Instant

variable {t u : Instant} {x y : ℚ}

/-- The instant comes before a point of time, in seconds from the start of 1970. A leap second comes before
what the next second does not come after. -/
def EarlierThan (t : Instant) (x : ℚ) : Prop :=
  if t.inLeapSecond then (t.seconds + 1 : ℚ) ≤ x else (t.seconds + t.nanos / 1000000000 : ℚ) < x

/-- The point of time of an instant. -/
def point (t : Instant) : ℚ := t.seconds + t.nanos / 1000000000

theorem EarlierThan.mono (h : t.EarlierThan x) (hle : x ≤ y) :
  t.EarlierThan y
  := by
  unfold EarlierThan at *
  split
  · rename_i hleap
    rw [if_pos hleap] at h
    linarith
  · rename_i hleap
    rw [if_neg hleap] at h
    linarith

/-- Outside leap seconds, the order of instants is that of their points of time. -/
theorem before_iff_earlierThan (hu : u.inLeapSecond = false) :
  t.before u ↔ t.EarlierThan u.point
  := by
  have hnanos : (nanosPerSecond : Nat) = 1000000000 := rfl
  rw [inLeapSecond, decide_eq_false_iff_not, hnanos] at hu
  have hu₀ : (0 : ℚ) ≤ u.nanos := Nat.cast_nonneg _
  have hu₁ : (u.nanos : ℚ) < 1000000000 := by
    exact_mod_cast Nat.lt_of_not_le hu
  rw [before_iff, EarlierThan, point]
  split
  · rename_i ht
    rw [inLeapSecond, decide_eq_true_eq, hnanos] at ht
    constructor
    · intro h
      have hseconds : t.seconds + 1 ≤ u.seconds := by omega
      have hseconds' : (t.seconds + 1 : ℚ) ≤ u.seconds := by exact_mod_cast hseconds
      have : (0 : ℚ) ≤ u.nanos / 1000000000 := by positivity
      linarith
    · intro h
      have hfraction : (u.nanos : ℚ) / 1000000000 < 1 := by
        rw [div_lt_one (by norm_num)]
        apply hu₁
      have hseconds : (t.seconds : ℚ) < u.seconds := by linarith
      exact .inl (by exact_mod_cast hseconds)
  · rename_i ht
    rw [inLeapSecond, decide_eq_true_eq, hnanos] at ht
    have hnumber : (t.seconds + t.nanos / 1000000000 : ℚ) < u.seconds + u.nanos / 1000000000
        ↔ t.seconds * 1000000000 + t.nanos < u.seconds * 1000000000 + u.nanos := by
      constructor
      · intro h
        have : (t.seconds * 1000000000 + t.nanos : ℚ) < u.seconds * 1000000000 + u.nanos := by linarith
        exact_mod_cast this
      · intro h
        have : (t.seconds * 1000000000 + t.nanos : ℚ) < u.seconds * 1000000000 + u.nanos := by
          exact_mod_cast h
        linarith
    rw [hnumber]
    omega

/-- An instant that is put together from seconds and nanoseconds is the sum of both. -/
theorem point_of_ofSecondsNanos? {seconds nanos : Int} (h : ofSecondsNanos? seconds nanos = some t) :
  t.inLeapSecond = false ∧ t.point = seconds + nanos / 1000000000
  := by
  have hnanos : (nanosPerSecond : Int) = 1000000000 := rfl
  have hwhole := Validity.seconds_of_ofSecondsNanos? h
  have hpart : (t.nanos : Int) = nanos % nanosPerSecond := by
    unfold ofSecondsNanos? at h
    dsimp only at h
    split at h
    · cases h
      apply Int.toNat_of_nonneg
      apply Int.emod_nonneg
      decide
    · cases h
  rw [hnanos] at hwhole hpart
  constructor
  · have hbound : t.nanos < 1000000000 := by omega
    rw [inLeapSecond, decide_eq_false_iff_not]
    apply Nat.not_le.mpr hbound
  · have hsum : (t.seconds - seconds) * 1000000000 + t.nanos = nanos := by omega
    have hsum' : ((t.seconds : ℚ) - seconds) * 1000000000 + t.nanos = nanos := by exact_mod_cast hsum
    rw [point]
    linarith

end Instant

namespace Validity

variable {notBefore length : Int} {refresh : Duration} {now : Instant}

/-- The instant comes before the renewal time of a validity, and before the point at which a fifth of it
is left. -/
def InTime (notBefore length : Int) (refresh : Duration) (now : Instant) : Prop :=
  now.EarlierThan (notBefore + refresh.nanos / 1000000000) ∧ now.EarlierThan (notBefore + 4 * length / 5)

/-- The point at which a fifth of a validity is left is hit exactly. -/
theorem latest_exact (hlength : 0 ≤ length) {t : Instant}
    (h : latest (.ofSeconds notBefore) (.ofSeconds (notBefore + length)) = .ok t) :
  t.inLeapSecond = false ∧ t.point = notBefore + 4 * length / 5
  := by
  obtain ⟨part, hpart⟩ : ∃ part : Int, part = length * 1000000000 / 5 := ⟨_, rfl⟩
  obtain ⟨hleap, hpoint⟩ := Instant.point_of_ofSecondsNanos? ((latest_eq_ok hlength).mp h)
  refine ⟨hleap, ?_⟩
  rw [hpoint, ← hpart]
  -- A fifth of whole seconds is a whole number of nanoseconds.
  have hfifth : part = length * 200000000 := by omega
  have hsum : (part / 1000000000) * 1000000000 + part % 1000000000 = length * 200000000 := by
    rw [← hfifth]
    omega
  have hsum' : ((part / 1000000000 : Int) : ℚ) * 1000000000 + ((part % 1000000000 : Int) : ℚ)
      = length * 200000000 := by
    exact_mod_cast hsum
  push_cast
  linarith

/-- The renewal time of a validity has not come as long as an instant before the end of the validity comes
before it, also if it is beyond the calendar. -/
theorem before_refreshAt_iff (hfrom : startOfYear 0 ≤ notBefore)
    (hto : notBefore + length < startOfYear 10000)
    (hend : now.EarlierThan (notBefore + length)) :
  now.before (refreshAt (.ofSeconds notBefore) (.ofSeconds (notBefore + length)) refresh)
    ↔ now.EarlierThan (notBefore + refresh.nanos / 1000000000)
  := by
  -- A renewal time after the end of the validity is as good as the end.
  have hbeyond : length * 1000000000 ≤ refresh.nanos →
      (now.before (.ofSeconds (notBefore + length))
        ↔ now.EarlierThan (notBefore + refresh.nanos / 1000000000)) := by
    intro hlong
    have hlong' : (length * 1000000000 : ℚ) ≤ refresh.nanos := by exact_mod_cast hlong
    have hpoint : (Instant.ofSeconds (notBefore + length)).point = notBefore + length := by
      simp [Instant.point, Instant.ofSeconds]
    rw [Instant.before_iff_earlierThan rfl, hpoint]
    apply iff_of_true hend
    apply hend.mono
    linarith
  rw [startOfYear_zero] at hfrom
  rw [startOfYear_tenThousand] at hto
  unfold refreshAt
  split
  · rename_i hlongest
    apply hbeyond
    have hlongest' : 9223372036854775807000000 < refresh.nanos := hlongest
    omega
  · rw [Instant.add?_ofSeconds_natCast]
    cases hadd : Instant.ofSecondsNanos? (notBefore + refresh.nanos / 1000000000)
        (refresh.nanos % 1000000000) with
    | none =>
      apply hbeyond
      have hnanos : (nanosPerSecond : Int) = 1000000000 := rfl
      by_contra hshort
      obtain ⟨t, ht⟩ : ∃ t, Instant.ofSecondsNanos? (notBefore + refresh.nanos / 1000000000)
          (refresh.nanos % 1000000000) = some t := by
        apply exists_ofSecondsNanos?
        · rw [startOfYear_zero, hnanos]
          omega
        · rw [startOfYear_tenThousand, hnanos]
          omega
      cases hadd.symm.trans ht
    | some t =>
      obtain ⟨hleap, hpoint⟩ := Instant.point_of_ofSecondsNanos? hadd
      have hsum : (refresh.nanos / 1000000000 : Int) * 1000000000 + refresh.nanos % 1000000000
          = refresh.nanos := by
        omega
      have hsum' : ((refresh.nanos / 1000000000 : Int) : ℚ) * 1000000000
          + ((refresh.nanos % 1000000000 : Int) : ℚ) = refresh.nanos := by
        exact_mod_cast hsum
      have hexact : t.point = notBefore + refresh.nanos / 1000000000 := by
        rw [hpoint, Int.cast_add]
        linarith
      rw [Option.getD_some, Instant.before_iff_earlierThan hleap, hexact]

/-- A certificate is kept as long as the schedule says so. -/
theorem due?_eq_none_iff (hfrom : startOfYear 0 ≤ notBefore) (hlength : 0 ≤ length)
    (hto : notBefore + length < startOfYear 10000) :
  due? (.ofSeconds notBefore) (.ofSeconds (notBefore + length)) refresh now = .ok none
    ↔ InTime notBefore length refresh now
  := by
  obtain ⟨t, hlatest, -⟩ := exists_latest hfrom hto hlength
  obtain ⟨hleap, hpoint⟩ := latest_exact hlength hlatest
  have hfifth : now.before t ↔ now.EarlierThan (notBefore + 4 * length / 5) := by
    rw [Instant.before_iff_earlierThan hleap, hpoint]
  have hend : now.before (.ofSeconds (notBefore + length)) ↔ now.EarlierThan (notBefore + length) := by
    have hpoint' : (Instant.ofSeconds (notBefore + length)).point = notBefore + length := by
      simp [Instant.point, Instant.ofSeconds]
    rw [Instant.before_iff_earlierThan rfl, hpoint']
  simp only [due?, hlatest, ok_bind, Instant.notBefore_iff]
  by_cases hearly : now.EarlierThan (notBefore + 4 * length / 5)
  · have hlength' : (0 : ℚ) ≤ length := by exact_mod_cast hlength
    have hvalid : now.EarlierThan (notBefore + length) := by
      apply hearly.mono
      linarith
    have hrefresh : now.before (refreshAt (.ofSeconds notBefore) (.ofSeconds (notBefore + length)) refresh)
        ↔ now.EarlierThan (notBefore + refresh.nanos / 1000000000) := before_refreshAt_iff hfrom hto hvalid
    rw [if_neg (not_not.mpr (hend.mpr hvalid)), if_neg (not_not.mpr (hfifth.mpr hearly)), InTime,
      ← hrefresh]
    split
    · rename_i hlate
      apply iff_of_false
      · rintro ⟨⟩
      · rintro ⟨h, -⟩
        exact hlate h
    · rename_i hlate
      apply iff_of_true
      · rfl
      · exact ⟨not_not.mp hlate, hearly⟩
  · apply iff_of_false
    · rw [if_pos (mt hfifth.mp hearly)]
      split
      · rintro ⟨⟩
      · rintro ⟨⟩
    · rintro ⟨-, h⟩
      exact hearly h

/-- A certificate is due once the schedule does not say any more that it is kept. -/
theorem exists_due_of_not_inTime (hfrom : startOfYear 0 ≤ notBefore) (hlength : 0 ≤ length)
    (hto : notBefore + length < startOfYear 10000) (hlate : ¬ InTime notBefore length refresh now) :
  ∃ reason, due? (.ofSeconds notBefore) (.ofSeconds (notBefore + length)) refresh now = .ok (some reason)
  := by
  obtain ⟨reason?, hdue⟩ := exists_due? hfrom (by omega : notBefore ≤ notBefore + length) hto refresh now
  cases reason? with
  | some reason => exact ⟨reason, hdue⟩
  | none => exact absurd ((due?_eq_none_iff hfrom hlength hto).mp hdue) hlate

end Validity

/-! ### Secrets on schedule -/

/-- The recorded validity of a secret starts with the second of an instant and lasts the whole seconds of
a lifetime. -/
structure Secret.IssuedAt (s : Secret) (issued : Instant) (lifetime : Duration) : Prop where
  possible : Validity.Possible issued lifetime
  notBefore : s.metadata.timeAt? AnnotationKey.notBefore = some (.ofSeconds issued.seconds)
  notAfter : s.metadata.timeAt? AnnotationKey.notAfter
    = some (.ofSeconds (issued.seconds + lifetime.seconds))

namespace Secret

variable {s : Secret} {issued now : Instant} {lifetime refresh : Duration} {v : Validity}
variable {info : CertificateInfo}

/-- What is recorded of a new certificate. -/
theorem Records.issuedAt (h : s.Records info) (hv : Validity.starting issued lifetime = .ok v)
    (hnotBefore : info.notBefore = .ofSeconds v.notBefore)
    (hnotAfter : info.notAfter = .ofSeconds v.notAfter) :
  s.IssuedAt issued lifetime
  := by
  obtain ⟨rfl, hpossible⟩ := Validity.starting_eq_ok hv
  refine ⟨hpossible, ?_, ?_⟩
  · rw [h.1, hnotBefore]
  · rw [h.2, hnotAfter]

namespace IssuedAt

theorem stamped (h : s.IssuedAt issued lifetime) (store : Store) (ns : String) :
  Secret.IssuedAt (store.stamped ns s) issued lifetime
  := ⟨h.possible, h.notBefore, h.notAfter⟩

theorem due?_eq (h : s.IssuedAt issued lifetime) (refresh : Duration) (now : Instant) :
  s.metadata.due? refresh now = Validity.due? (.ofSeconds issued.seconds)
    (.ofSeconds (issued.seconds + lifetime.seconds)) refresh now
  := by
  rw [Metadata.due?, h.notBefore, h.notAfter]

/-- The certificate of a secret is kept as long as the schedule says so. -/
theorem due?_eq_none_iff (h : s.IssuedAt issued lifetime) :
  s.metadata.due? refresh now = .ok none
    ↔ Validity.InTime issued.seconds lifetime.seconds refresh now
  := by
  rw [h.due?_eq]
  apply Validity.due?_eq_none_iff h.possible.1 (Int.natCast_nonneg _) h.possible.2

/-- The certificate of a secret is due after that. -/
theorem exists_due (h : s.IssuedAt issued lifetime)
    (hlate : ¬ Validity.InTime issued.seconds lifetime.seconds refresh now) :
  ∃ reason, s.metadata.due? refresh now = .ok (some reason)
  := by
  rw [h.due?_eq]
  apply Validity.exists_due_of_not_inTime h.possible.1 (Int.natCast_nonneg _) h.possible.2 hlate

end IssuedAt

end Secret

end CertKeeper
