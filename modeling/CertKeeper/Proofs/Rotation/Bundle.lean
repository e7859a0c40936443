import CertKeeper.Proofs.Certificate.Requested
import CertKeeper.Proofs.Cluster.Call
import CertKeeper.Proofs.Cluster.Object
import CertKeeper.Proofs.Rotation.Merge

/-!
# What a bundle stage does

`Bundle.ensure` may decide from a stale copy of the bundle, and other writers may change the
bundle while it is at work. `Bundle.Outcome` says what it comes to nevertheless: either it
found a copy that was up to date and wrote nothing, or it replaced the version from which it
took the older certificates. The version sent along with the write makes sure of that, since
in a coherent history a version is stored only once.
-/

namespace CertKeeper.Bundle

/-- The certificates of a version of a bundle. There are none if there is no version, or if it
has no text that can be read. -/
def listed (version : Option ConfigMap) : List TrustedCertificate :=
  (version.bind (fun m => m.text? EntryKey.bundle)).elim [] readable

/-- The config map to be written in the place of a version of a bundle. -/
def rewritten (ref : ResourceRef) (replaced : Option ConfigMap) (certs : List TrustedCertificate) :
    ConfigMap :=
  (replaced.getD (ConfigMap.new ref)).withText EntryKey.bundle (encodeBundle certs)

/-- What a bundle stage that began in the history `h` comes to. -/
inductive Outcome (ref : ResourceRef) (ca : Authority) (now : Instant) (h : History)
    (certs : List TrustedCertificate) (h' : History) : Prop where
  | kept (copy : ConfigMap) :
      (⟨.configMap, copy⟩ : Sigma Object) ∈ h'.past → copy.IsAt ref →
      certs = ca.trusted :: retained now ca.trusted (listed (some copy)) →
      copy.text? EntryKey.bundle = some (encodeBundle certs) →
      h'.commits = h.commits → Outcome ref ca now h certs h'
  | replaced (replaced : Option ConfigMap) (stored : ConfigMap) :
      (⟨.configMap, stored⟩ : Sigma Object) ∈ h'.past → stored.IsAt ref →
      certs = ca.trusted :: retained now ca.trusted (listed replaced) →
      stored.text? EntryKey.bundle = some (encodeBundle certs) →
      (∀ key, key ≠ EntryKey.bundle →
        stored.text? key = (replaced.getD (ConfigMap.new ref)).text? key) →
      stored.metadata
        = { (replaced.getD (ConfigMap.new ref)).metadata with version := stored.version } →
      h'.commits = h.commits ++ [⟨.configMap, replaced, stored⟩] → Outcome ref ca now h certs h'

theorem readable_empty :
  readable "" = []
  := by
  rw [readable, parseCertificates, Pem.blocks, Pem.allParts]
  rfl

theorem listed_eq (ref : ResourceRef) (copy : Option ConfigMap) :
  readable (((copy.getD (ConfigMap.new ref)).text? EntryKey.bundle).getD "") = listed copy
  := by
  cases copy with
  | none => apply readable_empty
  | some m =>
    simp only [listed, Option.getD_some, Option.bind_some]
    cases m.text? EntryKey.bundle with
    | none => apply readable_empty
    | some text => rfl

/-- What a bundle lists is genuine. -/
theorem genuine_of_mem_listed {version : Option ConfigMap} {cert : TrustedCertificate}
    (h : cert ∈ listed version) :
  cert.Genuine
  := by
  unfold listed at h
  cases htext : version.bind (fun m => m.text? EntryKey.bundle) with
  | none =>
    rw [htext] at h
    cases h
  | some text =>
    rw [htext, Option.elim_some, readable] at h
    cases hparse : parseCertificates text with
    | error fault =>
      rw [hparse] at h
      cases h
    | ok certs =>
      rw [hparse] at h
      apply genuine_of_mem_parseCertificates hparse h

theorem genuine_of_mem_merge {now : Instant} {present : TrustedCertificate}
    {version : Option ConfigMap} (hpresent : present.Genuine) {cert : TrustedCertificate}
    (h : cert ∈ merge now present (listed version)) :
  cert.Genuine
  := by
  rw [merge_eq] at h
  rcases List.mem_cons.mp h with rfl | h
  · apply hpresent
  · apply genuine_of_mem_listed (of_mem_retained h).1

/-- A bundle whose text was written for genuine certificates lists them. -/
theorem listed_of_text {m : ConfigMap} {certs : List TrustedCertificate}
    (hgenuine : ∀ cert ∈ certs, cert.Genuine)
    (htext : m.text? EntryKey.bundle = some (encodeBundle certs)) :
  listed (some m) = certs
  := by
  rw [listed, Option.bind_some, htext, Option.elim_some, readable,
    parseCertificates_encodeBundle certs hgenuine]
  rfl

theorem text?_stamped_rewritten (s : Store) (ref : ResourceRef) (replaced : Option ConfigMap)
    (certs : List TrustedCertificate) :
  ConfigMap.text? (s.stamped ref.ns (rewritten ref replaced certs)) EntryKey.bundle
    = some (encodeBundle certs)
  := by
  apply (ConfigMap.text?_withText _ _ _ _).trans
  apply if_pos rfl

/-- What a bundle lists after genuine certificates were stored in it. -/
theorem listed_stamped_rewritten {certs : List TrustedCertificate}
    (hgenuine : ∀ cert ∈ certs, cert.Genuine) (s : Store) (ref : ResourceRef)
    (replaced : Option ConfigMap) :
  listed (some (s.stamped ref.ns (rewritten ref replaced certs))) = certs
  := listed_of_text hgenuine (text?_stamped_rewritten s ref replaced certs)

/-- What a bundle lists after the certificate of a signer was merged into it. -/
theorem listed_stamped {now : Instant} {present : TrustedCertificate} (hpresent : present.Genuine)
    (s : Store) (ref : ResourceRef) (replaced version : Option ConfigMap) :
  listed (some (s.stamped ref.ns (rewritten ref replaced (merge now present (listed version)))))
    = merge now present (listed version)
  := by
  apply listed_stamped_rewritten
  intro cert hcert
  apply genuine_of_mem_merge hpresent hcert

variable {outside : Outside} {keep : History → Prop} {h : History}
variable {ref : ResourceRef} {ca : Authority}

/-- What a bundle stage comes to after time has passed is what it comes to. -/
theorem Outcome.of_drift {now : Instant} {h₁ h₂ h₃ : History} {certs : List TrustedCertificate}
    (hout : Outcome ref ca now h₁ certs h₂) (hd : h₂.Drift outside h₃) :
  Outcome ref ca now h₁ certs h₃
  := by
  cases hout with
  | kept copy hmem hat hcerts htext hcommits =>
    exact .kept copy (hd.later.past _ hmem) hat hcerts htext (hd.commits.trans hcommits)
  | replaced replaced stored hmem hat hcerts htext hothers hmetadata hcommits =>
    exact .replaced replaced stored (hd.later.past _ hmem) hat hcerts htext hothers hmetadata
      (hd.commits.trans hcommits)

/-- Only the writes of the first history count for what a stage comes to. -/
theorem Outcome.of_commits {now : Instant} {h₁ h₂ h₃ : History} {certs : List TrustedCertificate}
    (hout : Outcome ref ca now h₂ certs h₃) (hcommits : h₂.commits = h₁.commits) :
  Outcome ref ca now h₁ certs h₃
  := by
  cases hout with
  | kept copy hmem hat hcerts htext hsame =>
    exact .kept copy hmem hat hcerts htext (hsame.trans hcommits)
  | replaced replaced stored hmem hat hcerts htext hothers hmetadata hmore =>
    exact .replaced replaced stored hmem hat hcerts htext hothers hmetadata (hcommits ▸ hmore)

/-- A write of the merged certificates over the live version is an outcome. -/
theorem Outcome.of_wrote {now : Instant} {h' h'' : History} {replaced : Option ConfigMap}
    (hcommits : h'.commits = h.commits) (hfind : h'.store.find? .configMap ref = replaced)
    (hns : ∀ m ∈ replaced, m.metadata.ns = some ref.ns)
    (hw : h'.Wrote ref (rewritten ref replaced (merge now ca.trusted (listed replaced))) h'') :
  Outcome ref ca now h (merge now ca.trusted (listed replaced)) h''
  := by
  apply Outcome.replaced replaced _ hw.mem_past hw.isAt
  · apply merge_eq
  · apply text?_stamped_rewritten
  · intro key hkey
    apply (ConfigMap.text?_withText _ _ _ _).trans
    apply if_neg hkey
  · have hns' : (replaced.getD (ConfigMap.new ref)).metadata.ns = some ref.ns := by
      cases replaced with
      | none => rfl
      | some m => apply hns m rfl
    simp only [Store.stamped, Object.placed, rewritten, ConfigMap.withText, ← hns', Object.version]
  · rw [hw.commits, hfind, hcommits]

theorem encodeBundle_merge_ne_empty (hpem : ca.certPem ≠ "") (now : Instant)
    (existing : List TrustedCertificate) :
  encodeBundle (merge now ca.trusted existing) ≠ ""
  := by
  rw [merge_eq, encodeBundle, List.map_cons, String.join_cons]
  intro hempty
  apply hpem
  apply (String.append_eq_empty_iff.mp hempty).1

/-- The text of merged certificates is never that of a config map without any. -/
theorem text?_of_encodeBundle_merge (hpem : ca.certPem ≠ "") {now : Instant}
    {existing : List TrustedCertificate} {m : ConfigMap}
    (htext : encodeBundle (merge now ca.trusted existing) = (m.text? EntryKey.bundle).getD "") :
  m.text? EntryKey.bundle = some (encodeBundle (merge now ca.trusted existing))
  := by
  cases hfound : m.text? EntryKey.bundle with
  | none =>
    rw [hfound] at htext
    exact absurd htext (encodeBundle_merge_ne_empty hpem _ _)
  | some text =>
    rw [hfound] at htext
    rw [htext, Option.getD_some]

/-- A bundle that has the merged certificates already lists the authority. -/
theorem mem_listed_of_current {now : Instant} {m : ConfigMap} (hca : ca.trusted.Genuine)
    (htext : encodeBundle (merge now ca.trusted (listed (some m)))
      = (m.text? EntryKey.bundle).getD "") :
  ca.trusted ∈ listed (some m)
  := by
  have hgenuine : ∀ cert ∈ merge now ca.trusted (listed (some m)), cert.Genuine := by
    intro cert hcert
    apply genuine_of_mem_merge hca hcert
  have hlisted := listed_of_text hgenuine (text?_of_encodeBundle_merge hca.pem_ne_empty htext)
  rw [merge_eq] at hlisted
  have hfirst : ca.trusted ∈ ca.trusted :: retained now ca.trusted (listed (some m)) :=
    List.mem_cons_self
  rwa [← hlisted] at hfirst

/-- A copy that has the merged certificates already is an outcome. -/
theorem Outcome.of_current {now : Instant} {h' : History} {m : ConfigMap} (hpem : ca.certPem ≠ "")
    (hmem : (⟨.configMap, m⟩ : Sigma Object) ∈ h'.past) (hat : m.IsAt ref)
    (htext : encodeBundle (merge now ca.trusted (listed (some m)))
      = (m.text? EntryKey.bundle).getD "")
    (hcommits : h'.commits = h.commits) :
  Outcome ref ca now h (merge now ca.trusted (listed (some m))) h'
  := by
  apply Outcome.kept m hmem hat (merge_eq _ _ _) _ hcommits
  apply text?_of_encodeBundle_merge hpem htext

/-- The outcome of a stage that read the clock at some time between its beginning and its end. -/
def Publishes (ref : ResourceRef) (ca : Authority) (h : History) (certs : List TrustedCertificate)
    (h' : History) : Prop :=
  ∃ now, ¬ now.before h.clock ∧ ¬ h'.clock.before now ∧ Outcome ref ca now h certs h'

/-- A stage may have begun earlier, before other requests that wrote nothing. -/
theorem Publishes.of_later {h' h'' : History} {certs : List TrustedCertificate}
    (hp : Publishes ref ca h' certs h'') (hlater : h.Later h') (hcommits : h'.commits = h.commits) :
  Publishes ref ca h certs h''
  := by
  obtain ⟨now, hafter, hbefore, hout⟩ := hp
  exact ⟨now, Instant.not_before_trans hafter hlater.clock, hbefore, hout.of_commits hcommits⟩

/-- An invariant that a bundle stage can rely on and that its writes keep. -/
structure Upkeep (outside : Outside) (keep : History → Prop) (ref : ResourceRef) (ca : Authority) :
    Prop where
  steady : Procedure.Steady outside keep
  coherent : ∀ {h}, keep h → h.Coherent outside.follows
  follows : outside.follows .configMap ref
  certified : ca.certPem ≠ ""
  wrote : ∀ {h h'} (now : Instant), keep h → ¬ h.clock.before now →
    h.Wrote ref (rewritten ref (h.store.find? .configMap ref)
      (merge now ca.trusted (listed (h.store.find? .configMap ref)))) h' → keep h'

/-- A copy is some version of the bundle, or none. -/
def IsCopy (ref : ResourceRef) (copy : Option ConfigMap) (h : History) : Prop :=
  ∀ m ∈ copy, (⟨.configMap, m⟩ : Sigma Object) ∈ h.past ∧ m.IsAt ref

theorem isCopy_none :
  IsCopy ref none h
  := by
  intro m hm
  cases hm

theorem isCopy_some {m : ConfigMap} (hmem : (⟨.configMap, m⟩ : Sigma Object) ∈ h.past)
    (hat : m.IsAt ref) :
  IsCopy ref (some m) h
  := by
  intro m' hm'
  obtain rfl := Option.some.inj hm'
  exact ⟨hmem, hat⟩

/-- What is live is a copy. -/
theorem Upkeep.isCopy_live (hu : Upkeep outside keep ref ca) (hk : keep h) {m : ConfigMap}
    (hfind : h.store.find? .configMap ref = some m) :
  IsCopy ref (some m) h
  := by
  obtain ⟨hat, hmem⟩ := (hu.coherent hk).live hu.follows hfind
  apply isCopy_some hmem hat

/-- A publication ends with the event, once its write has the outcome. -/
theorem safe_reported (hu : Upkeep outside keep ref ca) {now : Instant} {h' : History}
    {certs : List TrustedCertificate} {stop : Stop → History → Prop} (hk : keep h')
    (hafter : ¬ now.before h.clock) (hbefore : ¬ h'.clock.before now)
    (hout : Outcome ref ca now h certs h') (stored : ConfigMap) (reason action note : String) :
  Procedure.Safe (History.step outside) keep
    (do
      Procedure.publish stored reason action note
      return certs)
    (Publishes ref ca h) stop h'
  := by
  apply Procedure.safe_bind
  apply Procedure.safe_publish hu.steady hk
  intro h'' hd hk''
  apply Procedure.safe_pure
  exact ⟨now, hafter, Instant.not_before_trans hd.later.clock hbefore, hout.of_drift hd⟩

/-- A publication keeps the invariant and has an outcome. -/
theorem safe_publish (hu : Upkeep outside keep ref ca) (hk : keep h) {copy : Option ConfigMap}
    (hcopy : IsCopy ref copy h) :
  Procedure.Safe (History.step outside) keep (publish ref ca copy) (Publishes ref ca h)
    (fun _ h' => h'.commits = h.commits) h
  := by
  apply Procedure.safe_bind
  apply Procedure.safe_clock hu.steady hk
  intro h₁ hd₁ hk₁
  simp only [listed_eq]
  split
  · rename_i hkept
    obtain ⟨m, rfl⟩ := Option.isSome_iff_exists.mp hkept.1
    obtain ⟨hmem, hat⟩ := hcopy m rfl
    apply Procedure.safe_pure
    refine ⟨h₁.clock, hd₁.later.clock, by simp, ?_⟩
    apply Outcome.of_current hu.certified (hd₁.later.past _ hmem) hat hkept.2 hd₁.commits
  · -- The copy decides between an update and a creation.
    cases copy with
    | some m =>
      obtain ⟨hmem, hat⟩ := hcopy m rfl
      have hname : (rewritten ref (some m)
          (merge h₁.clock ca.trusted (listed (some m)))).name = ref.name := hat.2
      apply Procedure.safe_bind
      apply Procedure.safe_update hu.steady hk₁ hname
      · intro h₂ h₃ live hd₂ hk₂ hlive hversion hw
        obtain rfl : m = live := (hu.coherent hk₂).eq_of_version hu.follows hat
          (hd₂.later.past _ (hd₁.later.past _ hmem)) hlive hversion
        have hk₃ : keep h₃ := by
          apply hu.wrote h₁.clock hk₂ hd₂.later.clock
          rw [hlive]
          apply hw
        constructor
        · apply hk₃
        · apply safe_reported hu hk₃ hd₁.later.clock (hd₂.later.trans hw.later).clock
          apply Outcome.of_wrote (hd₂.commits.trans hd₁.commits) hlive _ hw
          intro m' hm'
          obtain rfl := Option.some.inj hm'
          apply hat.1
      · intro h₂ e hd₂ hk₂
        apply hd₂.commits.trans hd₁.commits
    | none =>
      apply Procedure.safe_bind
      apply Procedure.safe_create hu.steady hk₁ rfl
      · intro h₂ h₃ hd₂ hk₂ hnone hw
        have hk₃ : keep h₃ := by
          apply hu.wrote h₁.clock hk₂ hd₂.later.clock
          rw [hnone]
          apply hw
        constructor
        · apply hk₃
        · apply safe_reported hu hk₃ hd₁.later.clock (hd₂.later.trans hw.later).clock
          apply Outcome.of_wrote (hd₂.commits.trans hd₁.commits) hnone _ hw
          intro m' hm'
          cases hm'
      · intro h₂ e hd₂ hk₂
        apply hd₂.commits.trans hd₁.commits

/-- A publication may follow other requests of the stage that wrote nothing. -/
theorem safe_publish_later (hu : Upkeep outside keep ref ca) {h' : History} (hlater : h.Later h')
    (hcommits : h'.commits = h.commits) (hk : keep h') {copy : Option ConfigMap}
    (hcopy : IsCopy ref copy h') :
  Procedure.Safe (History.step outside) keep (publish ref ca copy) (Publishes ref ca h)
    (fun _ h'' => h''.commits = h.commits) h'
  := by
  apply Procedure.safe_imp hk (safe_publish hu hk hcopy)
  · intro certs h'' _ _ hp
    apply hp.of_later hlater hcommits
  · intro e h'' _ _ hsame
    apply hsame.trans hcommits

/-- What the stage does when the first attempt stopped. -/
def retry (ref : ResourceRef) (ca : Authority) : Stop → Procedure (List TrustedCertificate)
  | .error e =>
    if e.isConflict || e.isAlreadyExists then do
      let live ← Procedure.find .configMap ref
      publish ref ca live
    else
      throw (.error e)
  | .overflow => throw .overflow

/-- The second attempt keeps the invariant and has an outcome. -/
theorem safe_retry (hu : Upkeep outside keep ref ca) {h' : History} (stop : Stop)
    (hlater : h.Later h') (hcommits : h'.commits = h.commits) (hk : keep h') :
  Procedure.Safe (History.step outside) keep (retry ref ca stop) (Publishes ref ca h)
    (fun _ h'' => h''.commits = h.commits) h'
  := by
  unfold retry
  split
  · split
    · apply Procedure.safe_bind
      apply Procedure.safe_find hu.steady hk
      · intro h₂ m hd₂ hk₂ hfind
        apply safe_publish_later hu (hlater.trans hd₂.later) (hd₂.commits.trans hcommits) hk₂
        apply hu.isCopy_live hk₂ hfind
      · intro h₂ hd₂ hk₂
        apply safe_publish_later hu (hlater.trans hd₂.later) (hd₂.commits.trans hcommits) hk₂
        apply isCopy_none
      · intro h₂ e hd₂ hk₂
        apply hd₂.commits.trans hcommits
    · apply Procedure.safe_throw
      apply hcommits
  · apply Procedure.safe_throw
    apply hcommits

/-- The stage is a publication with one more attempt. -/
theorem ensure_eq (ref : ResourceRef) (ca : Authority) :
  ensure ref ca = (do
    let copy ← Procedure.current .configMap none ref
    tryCatch (publish ref ca copy) (retry ref ca))
  := rfl

/-- The stage keeps the invariant and has an outcome. -/
theorem safe_ensure (hu : Upkeep outside keep ref ca) (hk : keep h) :
  Procedure.Safe (History.step outside) keep (ensure ref ca) (Publishes ref ca h)
    (fun _ h' => h'.commits = h.commits) h
  := by
  have hattempt : ∀ {h' : History} {copy : Option ConfigMap}, h.Drift outside h' → keep h' →
      IsCopy ref copy h' →
      Procedure.Safe (History.step outside) keep (tryCatch (publish ref ca copy) (retry ref ca))
        (Publishes ref ca h) (fun _ h'' => h''.commits = h.commits) h' := by
    intro h₁ copy hd₁ hk₁ hcopy
    apply Procedure.safe_tryCatch
    apply Procedure.safe_imp hk₁ (safe_publish_later hu hd₁.later hd₁.commits hk₁ hcopy)
    · intro certs h₂ _ _ hp
      apply hp
    · intro e h₂ hlater hk₂ hcommits
      apply safe_retry hu e (hd₁.later.trans hlater) hcommits hk₂
  rw [ensure_eq]
  apply Procedure.safe_bind
  apply Procedure.safe_current hu.steady hk hu.follows
  · intro h₁ m hd₁ hk₁ hmem hat
    apply hattempt hd₁ hk₁ (isCopy_some hmem hat)
  · intro h₁ m hd₁ hk₁ hfind
    apply hattempt hd₁ hk₁ (hu.isCopy_live hk₁ hfind)
  · intro h₁ hd₁ hk₁
    apply hattempt hd₁ hk₁ isCopy_none
  · intro h₁ e hd₁ hk₁
    apply hd₁.commits

/-- The certificates that a stage ends with: the one of its signer first, no two with the same
text, and of the older ones none that had expired when the stage read the clock. -/
structure Listing (ca : Authority) (now : Instant) (certs : List TrustedCertificate) : Prop where
  first : certs.head? = some ca.trusted
  distinct : certs.Pairwise (fun a b => a.pem ≠ b.pem)
  unexpired : ∀ cert ∈ certs.tail, cert.info.isExpired now = false

theorem listing_merge (ca : Authority) (now : Instant) (existing : List TrustedCertificate) :
  Listing ca now (merge now ca.trusted existing)
  := by
  constructor
  · rw [merge_eq, List.head?_cons]
  · apply pairwise_merge
  · intro cert hcert
    rw [merge_eq, List.tail_cons] at hcert
    apply (of_mem_retained hcert).2.1

theorem Outcome.listing {now : Instant} {h' : History} {certs : List TrustedCertificate}
    (hout : Outcome ref ca now h certs h') :
  Listing ca now certs
  := by
  cases hout with
  | kept copy _ _ hcerts _ _ =>
    rw [hcerts, ← merge_eq]
    apply listing_merge
  | replaced replaced stored _ _ hcerts _ _ _ _ =>
    rw [hcerts, ← merge_eq]
    apply listing_merge

/-- However stale the copy is from which a bundle stage decides, and whatever other writers do
meanwhile, the stage loses no certificate that is trusted: it either wrote nothing, or it
retained what the version listed that it replaced. If it stops, it has written nothing. -/
theorem ensure_loses_no_trust (hc : h.Coherent outside.follows)
    (hfollows : outside.follows .configMap ref) (hpem : ca.certPem ≠ "") :
  Procedure.Safe (History.step outside) (fun h' => h'.Coherent outside.follows) (ensure ref ca)
    (fun certs h' => ∃ now, ¬ now.before h.clock ∧ ¬ h'.clock.before now
      ∧ Listing ca now certs ∧ Outcome ref ca now h certs h')
    (fun _ h' => h'.commits = h.commits) h
  := by
  have hensure : Procedure.Safe (History.step outside) (fun h' => h'.Coherent outside.follows)
      (ensure ref ca) (Publishes ref ca h) (fun _ h' => h'.commits = h.commits) h := by
    apply safe_ensure ⟨fun hc hd => hc.drift hd, fun hc => hc, hfollows, hpem, ?_⟩ hc
    intro h' h'' now hc' _ hw
    apply hc'.wrote hw
  apply Procedure.safe_imp hc hensure
  · rintro certs h' - - ⟨now, hafter, hbefore, hout⟩
    exact ⟨now, hafter, hbefore, hout.listing, hout⟩
  · intro e h' _ _ hcommits
    apply hcommits

/-- Other writers may store genuine certificates in a bundle. -/
theorem exists_recorded {places : Kind → ResourceRef → Prop} (hc : h.Coherent places) (verb : WriteVerb)
    (ref : ResourceRef) (certs : List TrustedCertificate) (hgenuine : ∀ cert ∈ certs, cert.Genuine) :
  ∃ (h' : History) (m : ConfigMap), h'.Coherent places ∧ h.Later h' ∧ h'.clock = h.clock
    ∧ h'.store.find? .configMap ref = some m ∧ listed (some m) = certs
  := ⟨_, _, hc.recorded verb ref.ns (rewritten ref none certs), History.later_recorded _ _ _, rfl,
    Store.find?_commit_self _ _ _ _, listed_stamped_rewritten hgenuine _ _ _⟩

/-- A signer that is renewed while the live bundle lists an expired certificate and, twice, an earlier one
that has not expired. A former version, which a stale copy may show, lists the expired one alone. -/
theorem ensure_loses_no_trust_of_renewed :
  ∃ (outside : Outside) (h : History) (ref : ResourceRef) (ca earlier expired : Authority)
    (former : ConfigMap),
    (∀ k ref, outside.writes k ref) ∧ ca.Sound ∧ earlier.Sound ∧ expired.Sound
      ∧ ((⟨.configMap, former⟩ : Sigma Object) ∈ h.past ∧ former.IsAt ref
        ∧ listed (some former) = [expired.trusted])
      ∧ listed (h.store.find? .configMap ref) = [expired.trusted, earlier.trusted, earlier.trusted]
      ∧ merge h.clock ca.trusted (listed (h.store.find? .configMap ref)) = [ca.trusted, earlier.trusted]
      ∧ h.Coherent outside.follows ∧ outside.follows .configMap ref ∧ ca.certPem ≠ ""
      ∧ Procedure.Safe (History.step outside) (fun h' => h'.Coherent outside.follows)
        (ensure ref ca)
        (fun certs h' => ∃ now, ¬ now.before h.clock ∧ ¬ h'.clock.before now
          ∧ Listing ca now certs ∧ Outcome ref ca now h certs h')
        (fun _ h' => h'.commits = h.commits) h
  := by
  let ref : ResourceRef := ⟨"pki", "trust"⟩
  let outside : Outside := ⟨fun _ _ => True, fun _ _ => True, fun _ => True⟩
  have hmade : ∀ (commonName : String) (n : Nat) (lifetime : Duration),
      commonName.utf8ByteSize ≤ 100 → n + lifetime.seconds ≤ 14400 →
        ∃ ca : Authority, ca.Sound ∧ ca.info = .ofAuthority commonName (.ofSeconds n) lifetime := by
    intro commonName n lifetime hsize hlasts
    apply Authority.exists_sound
    · apply Validity.possible_ofSeconds
      omega
    · omega
  -- The signer is renewed at the start of the third hour, when only the first certificate has expired.
  obtain ⟨expired, hexpired, hinfo₀⟩ :=
    hmade "pki_signer@0" 0 ⟨3600 * nanosPerSecond, by decide⟩ (by decide) (by decide)
  obtain ⟨earlier, hearlier, hinfo₁⟩ :=
    hmade "pki_signer@3600" 3600 ⟨7200 * nanosPerSecond, by decide⟩ (by decide) (by decide)
  obtain ⟨ca, hca, hinfo₂⟩ :=
    hmade "pki_signer@7200" 7200 ⟨7200 * nanosPerSecond, by decide⟩ (by decide) (by decide)
  have hpem : ca.certPem ≠ "" := hca.loaded.certPem_ne_empty
  have hother : ca.trusted.pem ≠ earlier.trusted.pem := by
    intro hsame
    have htrusted : ca.trusted = earlier.trusted :=
      hca.loaded.genuine.eq_of_pem_eq hearlier.loaded.genuine hsame
    have hinfo : ca.info = earlier.info := congrArg TrustedCertificate.info htrusted
    rw [hinfo₂, hinfo₁] at hinfo
    exact absurd (congrArg CertificateInfo.commonName hinfo) (by decide)
  have hmerged : merge (.ofSeconds 7200) ca.trusted [expired.trusted, earlier.trusted, earlier.trusted]
      = [ca.trusted, earlier.trusted] := by
    have hpast : expired.trusted.info.isExpired (.ofSeconds 7200) = true := by
      show expired.info.isExpired _ = true
      rw [hinfo₀]
      decide
    have hvalid : earlier.trusted.info.isExpired (.ofSeconds 7200) = false := by
      show earlier.info.isExpired _ = false
      rw [hinfo₁]
      decide
    simp [merge, hpast, hvalid, hother]
  have hempty : (History.start (Store.new ["pki"]) (.ofSeconds 7200)).Coherent outside.follows :=
    History.coherent_start (fun k ref _ => Store.find?_new ["pki"] k ref) _
  obtain ⟨h₁, former, hc₁, -, hclock₁, hfind₁, hformer⟩ :=
    exists_recorded hempty .create ref [expired.trusted] (by simp [hexpired.loaded.genuine])
  obtain ⟨h, live, hc, hlater, hclock, hfind, hlive⟩ :=
    exists_recorded hc₁ .update ref [expired.trusted, earlier.trusted, earlier.trusted]
      (by simp [hexpired.loaded.genuine, hearlier.loaded.genuine])
  obtain ⟨hat, hmem⟩ := hc₁.live trivial hfind₁
  rw [← hfind] at hlive
  have hnow : h.clock = .ofSeconds 7200 := hclock.trans hclock₁
  refine ⟨outside, h, ref, ca, earlier, expired, former, fun _ _ => trivial, hca, hearlier, hexpired,
    ⟨hlater.past _ hmem, hat, hformer⟩, hlive, ?_, hc, trivial, hpem,
    ensure_loses_no_trust hc trivial hpem⟩
  rw [hlive, hnow, hmerged]

end CertKeeper.Bundle
