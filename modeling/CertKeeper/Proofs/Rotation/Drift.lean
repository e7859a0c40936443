import CertKeeper.Proofs.Rotation.Due

/-!
# Policies that drift

A secret `Drifts` when a policy is recorded on it that it did not carry: the policy takes the place of
the former one, the end of the validity becomes the present if there was one, and all else stays as it
was (`Secret.drifts_of_withFingerprint?`). Whatever the annotations said before, the secret is due from
then on (`Secret.due_of_withFingerprint?`). The new end of the validity has passed if it can be read. If
it cannot be read, because the present has no year of four digits, or if there was no end to replace, then
the validity is not recorded, and that is a reason as well.
-/

namespace CertKeeper

namespace Secret

variable {s s' : Secret} {desired : String} {shows : Instant → Prop} {now later : Instant}

/-- A policy was recorded on a secret, and the end of its validity became the present. -/
structure Drifts (desired : String) (now : Instant) (before after : Secret) : Prop where
  policy : after.annotationAt? AnnotationKey.policy = some desired
  notAfter : after.annotationAt? AnnotationKey.notAfter
    = (before.annotationAt? AnnotationKey.notAfter).map (fun _ => Rfc3339.writeSeconds now)
  annotations : ∀ name, name ≠ AnnotationKey.policy → name ≠ AnnotationKey.notAfter →
    after.annotationAt? name = before.annotationAt? name
  rest : after
    = ⟨{ before.metadata with annotations := after.metadata.annotations }, before.content⟩

theorem drifts_of_withFingerprint? (h : s.withFingerprint? desired now = some s') :
  Drifts desired now s s'
  := by
  obtain ⟨hpolicy, -, -, -, hothers, hnotAfter⟩ := withFingerprint?_eq_some h
  refine ⟨hpolicy, hnotAfter, hothers, ?_⟩
  unfold withFingerprint? at h
  split at h
  · cases h
  · obtain rfl := Option.some.inj h
    dsimp only
    split <;> rfl

/-- The end of the validity is read as the second of the present. -/
theorem Drifts.timeAt? (h : Drifts desired now s s') (hyear : now.FourDigits) (hcivil : now.Civil) :
  s'.metadata.timeAt? AnnotationKey.notAfter
    = (s.annotationAt? AnnotationKey.notAfter).map (fun _ => now.truncate)
  := by
  rw [timeAt?_eq, h.notAfter]
  cases s.annotationAt? AnnotationKey.notAfter with
  | none => rfl
  | some text =>
    rw [Option.map_some, Option.map_some, Option.bind_some]
    apply Rfc3339.read?_writeSeconds hyear hcivil

/-- A secret on which another policy was recorded is outdated, if it had a validity. -/
theorem outdated_of_withFingerprint? {now' : Instant} (h : s.withFingerprint? desired now = some s')
    (hsome : (s.annotationAt? AnnotationKey.notAfter).isSome) (hshows : shows now)
    (hlater : ¬ now'.before now) :
  s'.Outdated shows now'
  := by
  have hnotAfter := (drifts_of_withFingerprint? h).notAfter
  obtain ⟨text, htext⟩ := Option.isSome_iff_exists.mp hsome
  rw [htext] at hnotAfter
  exact ⟨now, hshows, hlater, hnotAfter⟩

/-- A secret on which another policy was recorded is due from then on. -/
theorem due_of_withFingerprint? (h : s.withFingerprint? desired now = some s')
    (hnow : now.Civil) (hlater : ¬ later.before now) (refresh : Duration) :
  ∃ reason, s'.metadata.due? refresh later = .ok (some reason)
  := by
  by_cases hsome : (s.annotationAt? AnnotationKey.notAfter).isSome
  · have houtdated : s'.Outdated Instant.Civil later := outdated_of_withFingerprint? h hsome hnow hlater
    apply houtdated.due (fun t ht => ht)
  · have hnotAfter := (drifts_of_withFingerprint? h).notAfter
    rw [Option.not_isSome_iff_eq_none.mp hsome] at hnotAfter
    have hmissing : s'.metadata.timeAt? AnnotationKey.notAfter = none := by
      rw [timeAt?_eq, hnotAfter]
      rfl
    rw [Metadata.due?, hmissing]
    cases s'.metadata.timeAt? AnnotationKey.notBefore <;> exact ⟨_, rfl⟩

/-- A policy is recorded on a secret unless the secret carries it. That changes the record and the end of
the validity only, it is done once, and it makes the secret due for good, whatever was recorded before. -/
theorem recording_forces_rotation (s : Secret) (desired : String) (hcivil : now.Civil) :
  (s.withFingerprint? desired now = none ↔ s.annotationAt? AnnotationKey.policy = some desired)
    ∧ (s.annotationAt? AnnotationKey.policy ≠ some desired →
      ∃ s', s.withFingerprint? desired now = some s' ∧ Drifts desired now s s'
        ∧ (now.FourDigits → s'.metadata.timeAt? AnnotationKey.notAfter
          = (s.annotationAt? AnnotationKey.notAfter).map (fun _ => now.truncate))
        ∧ (∀ now', s'.withFingerprint? desired now' = none)
        ∧ ∀ refresh later, ¬ later.before now →
          ∃ reason, s'.metadata.due? refresh later = .ok (some reason))
  := by
  constructor
  · apply withFingerprint?_eq_none
  · intro hother
    obtain ⟨s', h⟩ : ∃ s', s.withFingerprint? desired now = some s' := by
      rw [← Option.ne_none_iff_exists', ne_eq, withFingerprint?_eq_none]
      apply hother
    have hdrifts := drifts_of_withFingerprint? h
    refine ⟨s', h, hdrifts, ?_, ?_, ?_⟩
    · intro hyear
      apply hdrifts.timeAt? hyear hcivil
    · intro now'
      rw [withFingerprint?_eq_none]
      apply hdrifts.policy
    · intro refresh later hlater
      apply due_of_withFingerprint? h hcivil hlater

/-- A certificate that would be valid for long, and has not started to be, is due once a policy was
recorded in the leap second at the end of 2016. -/
theorem rotation_forced_in_leap_second :
  ∃ now : Instant, now.Civil ∧ now.inLeapSecond ∧ now.FourDigits
    ∧ ∃ s s' : Secret,
      s.annotationAt? AnnotationKey.notBefore = some "2017-06-01T00:00:00+02:00"
        ∧ s.annotationAt? AnnotationKey.notAfter = some "9999-12-31T23:59:59Z"
        ∧ s.withFingerprint? "{}" now = some s'
        ∧ s'.metadata.timeAt? AnnotationKey.notAfter = some now.truncate
        ∧ ∀ refresh, ∃ reason, s'.metadata.due? refresh now = .ok (some reason)
  := by
  have hcivil : (⟨1483228799, 1500000000, by decide⟩ : Instant).Civil := fun _ => rfl
  have hyear : (⟨1483228799, 1500000000, by decide⟩ : Instant).FourDigits := by
    constructor <;> decide
  obtain ⟨s, hs⟩ : ∃ s : Secret, s = ((Secret.new ⟨"pki", "leaf"⟩).annotate AnnotationKey.notBefore
      "2017-06-01T00:00:00+02:00").annotate AnnotationKey.notAfter "9999-12-31T23:59:59Z" := ⟨_, rfl⟩
  have hnotAfter : s.annotationAt? AnnotationKey.notAfter = some "9999-12-31T23:59:59Z" := by
    rw [hs, Object.annotationAt?_annotate, if_pos rfl]
  have hnotBefore : s.annotationAt? AnnotationKey.notBefore = some "2017-06-01T00:00:00+02:00" := by
    rw [hs, Object.annotationAt?_annotate, if_neg (by decide), Object.annotationAt?_annotate, if_pos rfl]
  have hother : s.annotationAt? AnnotationKey.policy ≠ some "{}" := by
    rw [hs, Object.annotationAt?_annotate, if_neg (by decide), Object.annotationAt?_annotate,
      if_neg (by decide)]
    rintro ⟨⟩
  obtain ⟨s', hrecord, -, hread, -, hdue⟩ := (recording_forces_rotation s "{}" hcivil).2 hother
  refine ⟨_, hcivil, rfl, hyear, s, s', hnotBefore, hnotAfter, hrecord, ?_, ?_⟩
  · rw [hread hyear, hnotAfter]
    rfl
  · intro refresh
    apply hdue
    simp

end Secret

end CertKeeper
