import CertKeeper.Proofs.Certificate.Validity
import CertKeeper.Proofs.Cluster.Object
import CertKeeper.Proofs.Program.Result
import CertKeeper.Proofs.Time.Rfc3339
import CertKeeper.Rotation.Due

/-!
# Recorded validities

A secret `Records` the validity of a certificate if its annotations are read as it. That is so
once a new certificate has been stored (`Secret.records_withValidity`), and it is not due then
(`Validity.due?_starting`). When another policy is recorded, the end of the validity becomes a
time that the clock has shown, and such an `Outdated` secret is due from then on
(`Secret.Outdated.due`).
-/

namespace CertKeeper

/-! ### Moves from the start of a second -/

namespace Instant

/-- An instant is moved from the start of a second by the whole seconds and the rest. -/
theorem add?_ofSeconds (seconds delta : Int) :
  (ofSeconds seconds).add? delta
    = ofSecondsNanos? (seconds + delta.tdiv nanosPerSecond) (delta.tmod nanosPerSecond)
  := by
  simp only [add?, inLeapSecond_ofSeconds, Bool.false_eq_true, if_false]
  simp only [ofSeconds, Int.natCast_zero, Int.zero_add]

theorem add?_ofSeconds_natCast (seconds : Int) (nanos : Nat) :
  (ofSeconds seconds).add? nanos
    = ofSecondsNanos? (seconds + nanos / 1000000000) (nanos % 1000000000)
  := by
  have hnanos : (nanosPerSecond : Int) = 1000000000 := rfl
  rw [add?_ofSeconds, hnanos, Int.tdiv_eq_ediv_of_nonneg (by omega), Int.tmod_eq_emod_of_nonneg (by omega)]

end Instant

/-! ### New certificates are not due -/

namespace Validity

variable {now : Instant} {lifetime refresh : Duration} {v : Validity}

/-- A fifth of a validity is taken back from its end. -/
theorem latest_eq_ok {notBefore length : Int} (hlength : 0 ≤ length) {t : Instant} :
  latest (.ofSeconds notBefore) (.ofSeconds (notBefore + length)) = .ok t
    ↔ Instant.ofSecondsNanos? (notBefore + length - length * 1000000000 / 5 / 1000000000)
        (-(length * 1000000000 / 5 % 1000000000)) = some t
  := by
  have hnanos : (nanosPerSecond : Int) = 1000000000 := rfl
  -- A fifth of the validity, which is taken back from its end.
  obtain ⟨part, hpart⟩ : ∃ part : Int, part = length * 1000000000 / 5 := ⟨_, rfl⟩
  have hsince : (Instant.ofSeconds (notBefore + length)).since (.ofSeconds notBefore)
      = length * 1000000000 := by
    simp only [Instant.since, Instant.inLeapSecond_ofSeconds, hnanos, Bool.false_eq_true, if_false,
      ite_self]
    simp only [Instant.ofSeconds]
    omega
  have hadd : (Instant.ofSeconds (notBefore + length)).add? (-part)
      = Instant.ofSecondsNanos? (notBefore + length - part / 1000000000) (-(part % 1000000000)) := by
    rw [Instant.add?_ofSeconds, hnanos, Int.neg_tdiv, Int.tdiv_eq_ediv_of_nonneg (by omega), Int.neg_tmod,
      Int.tmod_eq_emod_of_nonneg (by omega), Int.sub_eq_add_neg]
  rw [latest, hsince, ← hpart, hadd]
  cases Instant.ofSecondsNanos? (notBefore + length - part / 1000000000) (-(part % 1000000000)) <;> simp

/-- A fifth of a validity can be taken back from its end, and if the validity lasts two seconds,
then the rest has not passed when it starts. -/
theorem exists_latest {notBefore length : Int}
    (hfrom : startOfYear 0 ≤ notBefore) (hto : notBefore + length < startOfYear 10000)
    (hlength : 0 ≤ length) :
  ∃ t, latest (.ofSeconds notBefore) (.ofSeconds (notBefore + length)) = .ok t
    ∧ (2 ≤ length → notBefore < t.seconds)
  := by
  have hnanos : (nanosPerSecond : Int) = 1000000000 := rfl
  obtain ⟨t, ht⟩ : ∃ t, Instant.ofSecondsNanos?
      (notBefore + length - length * 1000000000 / 5 / 1000000000)
      (-(length * 1000000000 / 5 % 1000000000)) = some t := by
    apply exists_ofSecondsNanos?
    · rw [hnanos]
      omega
    · rw [hnanos]
      omega
  refine ⟨t, (latest_eq_ok hlength).mpr ht, ?_⟩
  intro hlong
  have hseconds := seconds_of_ofSecondsNanos? ht
  rw [hnanos] at hseconds
  omega

/-- Of a certificate that is not due, a fifth of the validity is left. -/
theorem fifth_left_of_due? {notBefore length : Int} (hlength : 0 ≤ length)
    (hdue : due? (.ofSeconds notBefore) (.ofSeconds (notBefore + length)) refresh now = .ok none) :
  now.seconds + length / 5 ≤ notBefore + length
  := by
  unfold due? at hdue
  split at hdue
  · cases hdue
  · obtain ⟨t, hlatest, hdue⟩ := bind_eq_ok.mp hdue
    split at hdue
    · cases hdue
    · rename_i hbefore
      rw [Instant.notBefore_iff, not_not, Instant.before_iff] at hbefore
      have hseconds := seconds_of_ofSecondsNanos? ((latest_eq_ok hlength).mp hlatest)
      have hnanos : (nanosPerSecond : Int) = 1000000000 := rfl
      rw [hnanos] at hseconds
      omega

/-- The renewal time of a new certificate is still to come. -/
theorem refreshAt_starting {notBefore length : Int} (hlength : 2 ≤ length)
    (hrefresh : nanosPerSecond ≤ refresh.nanos) :
  notBefore < (refreshAt (.ofSeconds notBefore) (.ofSeconds (notBefore + length)) refresh).seconds
  := by
  have hend : notBefore < (Instant.ofSeconds (notBefore + length)).seconds := by
    simp only [Instant.ofSeconds]
    omega
  unfold refreshAt
  split
  · apply hend
  · rw [Instant.add?_ofSeconds_natCast]
    cases hadd : Instant.ofSecondsNanos? (notBefore + refresh.nanos / 1000000000)
        (refresh.nanos % 1000000000) with
    | none => apply hend
    | some t =>
      have hseconds := seconds_of_ofSecondsNanos? hadd
      have hnanos : (nanosPerSecond : Int) = 1000000000 := rfl
      have hrefresh' : (1000000000 : Int) ≤ refresh.nanos := Int.ofNat_le.mpr hrefresh
      rw [hnanos] at hseconds
      rw [Option.getD_some]
      omega

/-- A certificate is not due at the time for which it is issued. -/
theorem due?_starting (hv : starting now lifetime = .ok v) (hlifetime : 2 ≤ lifetime.seconds)
    (hrefresh : nanosPerSecond ≤ refresh.nanos) :
  due? (.ofSeconds v.notBefore) (.ofSeconds v.notAfter) refresh now = .ok none
  := by
  obtain ⟨rfl, hfrom, hto⟩ := starting_eq_ok hv
  have hnot : ∀ t : Instant, now.seconds < t.seconds → now.notBefore t = false := by
    intro t ht
    rw [← Bool.not_eq_true, Instant.notBefore_iff, Instant.before_iff]
    omega
  have hlength : (2 : Int) ≤ lifetime.seconds := Int.ofNat_le.mpr hlifetime
  obtain ⟨latest, hlatest, hafter⟩ := exists_latest hfrom hto (by omega)
  have hrefreshAt := hnot _ (refreshAt_starting hlength hrefresh)
  have hend : now.notBefore (.ofSeconds (now.seconds + lifetime.seconds)) = false := by
    apply hnot
    simp only [Instant.ofSeconds]
    omega
  simp only [due?, hend, hlatest, ok_bind, hnot latest (hafter hlength), hrefreshAt, Bool.false_eq_true,
    if_false]
  rfl

/-- Whether a certificate is due can always be said of a validity in the calendar. -/
theorem exists_due? {notBefore notAfter : Int} (hfrom : startOfYear 0 ≤ notBefore)
    (hlasts : notBefore ≤ notAfter) (hto : notAfter < startOfYear 10000) (refresh : Duration)
    (now : Instant) :
  ∃ reason, due? (.ofSeconds notBefore) (.ofSeconds notAfter) refresh now = .ok reason
  := by
  obtain ⟨length, rfl⟩ : ∃ length, notAfter = notBefore + length := ⟨notAfter - notBefore, by omega⟩
  obtain ⟨latest, hlatest, -⟩ := exists_latest hfrom hto (by omega)
  unfold due?
  split
  · exact ⟨_, rfl⟩
  · simp only [hlatest, ok_bind]
    split
    · exact ⟨_, rfl⟩
    · split
      · exact ⟨_, rfl⟩
      · exact ⟨_, rfl⟩

end Validity

/-- The validity of a certificate is one in the calendar. -/
def CertificateInfo.Dated (info : CertificateInfo) : Prop :=
  ∃ notBefore notAfter : Int, Validity.startOfYear 0 ≤ notBefore ∧ notBefore ≤ notAfter
    ∧ notAfter < Validity.startOfYear 10000
    ∧ info.notBefore = .ofSeconds notBefore ∧ info.notAfter = .ofSeconds notAfter

theorem CertificateInfo.dated_of_starting {now : Instant} {lifetime : Duration} {v : Validity}
    {info : CertificateInfo} (hv : Validity.starting now lifetime = .ok v)
    (hnotBefore : info.notBefore = .ofSeconds v.notBefore)
    (hnotAfter : info.notAfter = .ofSeconds v.notAfter) :
  info.Dated
  := by
  obtain ⟨rfl, hfrom, hto⟩ := Validity.starting_eq_ok hv
  exact ⟨_, _, hfrom, by show now.seconds ≤ now.seconds + _; omega, hto, hnotBefore, hnotAfter⟩

/-! ### What annotations record -/

/-- The validity of a certificate is recorded. -/
def Secret.Records (s : Secret) (info : CertificateInfo) : Prop :=
  s.metadata.timeAt? AnnotationKey.notBefore = some info.notBefore
    ∧ s.metadata.timeAt? AnnotationKey.notAfter = some info.notAfter

/-- The recorded end of the validity is a time that the clock has shown. -/
def Secret.Outdated (shows : Instant → Prop) (now : Instant) (s : Secret) : Prop :=
  ∃ t, shows t ∧ ¬ now.before t
    ∧ s.annotationAt? AnnotationKey.notAfter = some (Rfc3339.writeSeconds t)

namespace Secret

variable {s s' : Secret} {info : CertificateInfo} {shows : Instant → Prop} {now : Instant}

theorem timeAt?_eq (s : Secret) (name : String) :
  s.metadata.timeAt? name = (s.annotationAt? name).bind Rfc3339.read?
  := rfl

theorem Records.of_annotations (h : s.Records info)
    (hnotBefore : s'.annotationAt? AnnotationKey.notBefore = s.annotationAt? AnnotationKey.notBefore)
    (hnotAfter : s'.annotationAt? AnnotationKey.notAfter = s.annotationAt? AnnotationKey.notAfter) :
  s'.Records info
  := by
  rw [Records, timeAt?_eq, timeAt?_eq] at *
  rw [hnotBefore, hnotAfter]
  apply h

theorem Records.due? (h : s.Records info) (refresh : Duration) (now : Instant) :
  s.metadata.due? refresh now = Validity.due? info.notBefore info.notAfter refresh now
  := by
  rw [Metadata.due?, h.1, h.2]

theorem Records.exists_due? (h : s.Records info) (hdated : info.Dated) (refresh : Duration)
    (now : Instant) :
  ∃ reason, s.metadata.due? refresh now = .ok reason
  := by
  obtain ⟨notBefore, notAfter, hfrom, hlasts, hto, hnotBefore, hnotAfter⟩ := hdated
  rw [h.due?, hnotBefore, hnotAfter]
  apply Validity.exists_due? hfrom hlasts hto

theorem Outdated.later {now' : Instant} (h : s.Outdated shows now) (hlater : ¬ now'.before now) :
  s.Outdated shows now'
  := by
  obtain ⟨t, hshows, hpast, htext⟩ := h
  exact ⟨t, hshows, Instant.not_before_trans hlater hpast, htext⟩

/-- An outdated secret is due. -/
theorem Outdated.due (hcivil : ∀ t, shows t → t.Civil) (h : s.Outdated shows now)
    (refresh : Duration) :
  ∃ reason, s.metadata.due? refresh now = .ok (some reason)
  := by
  obtain ⟨t, hshows, hpast, htext⟩ := h
  have hnotAfter : s.metadata.timeAt? AnnotationKey.notAfter
      = Rfc3339.read? (Rfc3339.writeSeconds t) := by
    rw [timeAt?_eq, htext, Option.bind_some]
  unfold Metadata.due?
  split
  · exact ⟨_, rfl⟩
  · exact ⟨_, rfl⟩
  · rename_i notBefore notAfter _ hread
    rw [hnotAfter] at hread
    have hend := Rfc3339.not_before_of_read?_writeSeconds (hcivil t hshows) hread
    have hexpired : now.notBefore notAfter = true :=
      (Instant.notBefore_iff _ _).mpr (Instant.not_before_trans hpast hend)
    rw [Validity.due?, if_pos hexpired]
    exact ⟨_, rfl⟩

/-- The validity of a new certificate is recorded. -/
theorem records_withValidity {lifetime : Duration} {v : Validity}
    (hv : Validity.starting now lifetime = .ok v) (hnotBefore : info.notBefore = .ofSeconds v.notBefore)
    (hnotAfter : info.notAfter = .ofSeconds v.notAfter) (s : Secret) :
  (s.withValidity info).Records info
  := by
  obtain ⟨rfl, hfrom, hto⟩ := Validity.starting_eq_ok hv
  have hread : ∀ seconds, Validity.startOfYear 0 ≤ seconds → seconds < Validity.startOfYear 10000 →
      Rfc3339.read? (Rfc3339.writeSeconds (.ofSeconds seconds)) = some (.ofSeconds seconds) := by
    intro seconds hlow hhigh
    obtain ⟨hyear, hyear'⟩ := Validity.year_bounds hlow hhigh
    rw [Rfc3339.read?_writeSeconds ⟨hyear, by omega⟩ (by simp [Instant.Civil])]
    rfl
  have hkeys : AnnotationKey.notBefore ≠ AnnotationKey.notAfter := by decide
  constructor
  · rw [timeAt?_eq, withValidity, Object.annotationAt?_annotate, if_neg hkeys,
      Object.annotationAt?_annotate, if_pos rfl, Option.bind_some, hnotBefore]
    apply hread
    · apply hfrom
    · show now.seconds < _
      omega
  · rw [timeAt?_eq, withValidity, Object.annotationAt?_annotate, if_pos rfl, Option.bind_some,
      hnotAfter]
    apply hread
    · show _ ≤ now.seconds + (lifetime.seconds : Int)
      omega
    · apply hto

end Secret

/-! ### Recording a policy -/

namespace Secret

variable {s s' : Secret} {desired : String} {now : Instant}

/-- Recording a policy changes at most two annotations. -/
theorem withFingerprint?_eq_some (h : s.withFingerprint? desired now = some s') :
  s'.annotationAt? AnnotationKey.policy = some desired ∧ s'.content = s.content
    ∧ s'.name = s.name ∧ s'.version = s.version
    ∧ (∀ name, name ≠ AnnotationKey.policy → name ≠ AnnotationKey.notAfter →
      s'.annotationAt? name = s.annotationAt? name)
    ∧ (s'.annotationAt? AnnotationKey.notAfter
      = (s.annotationAt? AnnotationKey.notAfter).map (fun _ => Rfc3339.writeSeconds now))
  := by
  have hkeys : AnnotationKey.notAfter ≠ AnnotationKey.policy := by decide
  unfold withFingerprint? at h
  dsimp only at h
  split at h
  · cases h
  · obtain rfl := Option.some.inj h
    refine ⟨?_, ?_, ?_, ?_, ?_, ?_⟩
    · rw [Object.annotationAt?_annotate, if_pos rfl]
    · rw [Object.content_annotate]
      split <;> rfl
    · rw [Object.name_annotate]
      split <;> rfl
    · rw [Object.version_annotate]
      split <;> rfl
    · intro name hpolicy hnotAfter
      rw [Object.annotationAt?_annotate, if_neg hpolicy]
      split
      · rw [Object.annotationAt?_annotate, if_neg hnotAfter]
      · rfl
    · rw [Object.annotationAt?_annotate, if_neg hkeys]
      split
      · rename_i hsome
        obtain ⟨text, htext⟩ := Option.isSome_iff_exists.mp hsome
        rw [Object.annotationAt?_annotate, if_pos rfl, htext]
        rfl
      · rename_i hnone
        rw [Option.not_isSome_iff_eq_none.mp hnone]
        rfl

theorem withFingerprint?_eq_none (desired : String) (now : Instant) :
  s.withFingerprint? desired now = none ↔ s.annotationAt? AnnotationKey.policy = some desired
  := by
  unfold withFingerprint?
  split
  · simp_all
  · simp_all

end Secret

end CertKeeper
