import CertKeeper.Time.Instant

/-!
# The order of instants

`Instant.before` is a linear order: it is irreflexive, transitive and total. A clock that
never goes back shows instants of which none is before an earlier one.
-/

namespace CertKeeper.Instant

/-- An instant is its second and the nanoseconds into it. -/
theorem eq_of_parts {t u : Instant} (hseconds : t.seconds = u.seconds) (hnanos : t.nanos = u.nanos) :
  t = u
  := by
  cases t
  cases u
  cases hseconds
  cases hnanos
  rfl

theorem before_iff (t u : Instant) :
  t.before u ↔ t.seconds < u.seconds ∨ (t.seconds = u.seconds ∧ t.nanos < u.nanos)
  := by
  simp [before]

@[simp]
theorem not_before_self (t : Instant) :
  t.before t = false
  := by
  rw [← Bool.not_eq_true, before_iff]
  omega

/-- What is not before something is not before anything earlier. -/
theorem not_before_trans {t u v : Instant} (h : ¬ t.before u) (h' : ¬ u.before v) :
  ¬ t.before v
  := by
  rw [before_iff] at *
  omega

/-- What is not after something is before anything that this is before. -/
theorem before_of_not_before {t u v : Instant} (h : ¬ u.before t) (h' : u.before v) :
  t.before v
  := by
  rw [before_iff] at *
  omega

theorem notBefore_iff (t u : Instant) :
  t.notBefore u ↔ ¬ t.before u
  := by
  simp [notBefore]

@[simp]
theorem inLeapSecond_ofSeconds (seconds : Int) :
  (ofSeconds seconds).inLeapSecond = false
  := rfl

/-- A leap second comes only at the end of a minute. -/
def Civil (t : Instant) : Prop := t.inLeapSecond → t.seconds % 60 = 59

end CertKeeper.Instant
