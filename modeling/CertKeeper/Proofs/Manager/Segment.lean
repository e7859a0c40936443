import CertKeeper.Proofs.Cluster.Quiet
import CertKeeper.Proofs.Manager.PolicyChange
import CertKeeper.Proofs.Manager.Settled

/-!
# What stages commit

In quiet surroundings a stage for a secret commits nothing, or one of a few sequences that end with a
rotation (`Manager.SecretSegment`), and a bundle stage writes its config map once at most
(`Manager.BundleSegment`). A secret on which another policy has been recorded is due, so that the record
is followed by the rotation whatever the secret held before.

An authority with a certificate that has not been stored yet is `Authority.Unlisted`: no bundle lists it,
and no leaf was told to trust it. So both later stages have something to commit once the signer has been
replaced.
-/

namespace CertKeeper

/-! ### Versions of a secret -/

namespace Secret

variable {s s' : Secret} {policy : Policy} {now later : Instant} {seed : Nat}

/-- A policy was recorded on a version of a secret that did not carry the record. -/
structure Recorded (policy : Policy) (before after : Secret) : Prop where
  other : before.annotationAt? AnnotationKey.policy ≠ some policy.fingerprint
  recorded : after.annotationAt? AnnotationKey.policy = some policy.fingerprint
  content : after.content = before.content

/-- A certificate that was issued for a policy was stored, with its key, on a version of a secret that
carried the record of the policy. -/
structure Rotated (policy : Policy) (before after : Secret) : Prop where
  recorded : before.annotationAt? AnnotationKey.policy = some policy.fingerprint
  kept : after.annotationAt? AnnotationKey.policy = some policy.fingerprint
  issued : after.IssuedFor policy.lifetime
  paired : ∃ certPem keyPem, after.text? EntryKey.certificate = some certPem
    ∧ after.text? EntryKey.privateKey = some keyPem
    ∧ Authority.keyMatches? certPem keyPem = some true

theorem recorded_of_withFingerprint? (h : s.withFingerprint? policy.fingerprint now = some s')
    (store : Store) (ns : String) :
  Recorded policy s (store.stamped ns s')
  := by
  obtain ⟨hpolicy, hcontent, -⟩ := withFingerprint?_eq_some h
  refine ⟨?_, hpolicy, hcontent⟩
  intro hsame
  rw [(withFingerprint?_eq_none _ _).mpr hsame] at h
  cases h

/-- A new authority is a rotation. -/
theorem rotated_withKeyPair {issued : Instant} {v : Validity} {commonName : String} {ca : Authority}
    (hpolicy : s.annotationAt? AnnotationKey.policy = some policy.fingerprint)
    (hv : Validity.starting issued policy.lifetime = .ok v)
    (hca : Authority.generate commonName v (KeyPair.generate seed) = .ok ca) (store : Store)
    (ns : String) :
  Rotated policy s (store.stamped ns (s.withKeyPair ca.certPem ca.keyPem ca.info))
  := by
  have hkeys : EntryKey.certificate ≠ EntryKey.privateKey := by decide
  refine ⟨hpolicy, ?_, (issuedFor_withKeyPair s hv hca).stamped store ns, ca.certPem, ca.keyPem, ?_, ?_,
    (Authority.generate_eq_ok hv hca).1.keyMatches?⟩
  · rw [Object.annotationAt?_stamped, policy_withKeyPair, hpolicy]
  · rw [text?_stamped, text?_withKeyPair, if_neg hkeys, if_pos rfl]
  · rw [text?_stamped, text?_withKeyPair, if_pos rfl]

/-- A new leaf certificate is a rotation. -/
theorem rotated_filled {r : LeafStage} {ca : Authority} {trusted : List TrustedCertificate}
    {issued : IssuedCertificate}
    (hpolicy : s.annotationAt? AnnotationKey.policy = some r.policy.fingerprint)
    (hsign : ca.sign r.request now r.policy.lifetime (KeyPair.generate seed) = .ok issued)
    (store : Store) (ns : String) :
  Rotated r.policy s (store.stamped ns (r.filled s ca trusted issued))
  := by
  obtain ⟨v, -, hserves⟩ := Authority.serves_of_sign hsign
  obtain ⟨hcert, hkey, -⟩ := @LeafStage.texts_filled r s ca trusted issued
  refine ⟨hpolicy, ?_, (issuedFor_filled s hsign).stamped store ns, issued.certPem, issued.keyPem, ?_, ?_,
    hserves.keyMatches⟩
  · rw [Object.annotationAt?_stamped, LeafStage.policy_filled, hpolicy]
  · rw [text?_stamped, hcert]
  · rw [text?_stamped, hkey]

end Secret

/-! ### New certificates -/

/-- A text of an object that is stored. -/
inductive Store.HasText (s : Store) : String → Prop where
  | secret {ref : ResourceRef} {o : Secret} {key text : String} :
      s.find? .secret ref = some o → o.text? key = some text → HasText s text
  | configMap {ref : ResourceRef} {o : ConfigMap} {key text : String} :
      s.find? .configMap ref = some o → o.text? key = some text → HasText s text

/-- A certificate is among those of a text that is stored. -/
def Store.Lists (s : Store) (certPem : String) : Prop :=
  ∃ text certs cert, s.HasText text ∧ parseCertificates text = .ok certs ∧ cert ∈ certs
    ∧ cert.pem = certPem

/-- No authority that is made with a key has a certificate that is stored already. -/
def KeyPair.NewIn (key : KeyPair) (s : Store) : Prop :=
  ∀ commonName v ca, Authority.generate commonName v key = .ok ca → ¬ s.Lists ca.certPem

/-- All times that the clock shows have time stamps that are read back, and new key pairs are new to the
store. -/
structure Quiet.Proper (q : Quiet) : Prop where
  civil : ∀ t, q.shows t → t.Civil
  new : ∀ s key, q.makes s key → key.NewIn s

/-- No leaf was told to trust an authority first. -/
def Authority.Untold (ca : Authority) (s : Store) : Prop :=
  ∀ ref (o : Secret) first, s.find? .secret ref = some o →
    LeafStage.publishedAuthority? o = some first → first.pem ≠ ca.certPem

/-- No bundle lists an authority, and no leaf was told to trust it first. -/
structure Authority.Unlisted (ca : Authority) (s : Store) : Prop where
  bundles : ∀ ref, ∀ cert ∈ Bundle.listed (s.find? .configMap ref), cert.pem ≠ ca.certPem
  untold : ca.Untold s

/-- The certificates that a bundle lists are those of one of its texts. -/
theorem Bundle.exists_text_of_mem_listed {version : Option ConfigMap} {cert : TrustedCertificate}
    (h : cert ∈ listed version) :
  ∃ m text certs, version = some m ∧ m.text? EntryKey.bundle = some text
    ∧ parseCertificates text = .ok certs ∧ cert ∈ certs
  := by
  cases version with
  | none => cases h
  | some m =>
    rw [listed, Option.bind_some] at h
    cases htext : m.text? EntryKey.bundle with
    | none =>
      rw [htext] at h
      cases h
    | some text =>
      rw [htext, Option.elim_some, readable] at h
      cases hparse : parseCertificates text with
      | error fault =>
        rw [hparse] at h
        cases h
      | ok certs =>
        rw [hparse] at h
        exact ⟨m, text, certs, rfl, htext, hparse, h⟩

/-- What a leaf was told to trust first depends on the content only. -/
theorem LeafStage.publishedAuthority?_of_content {s s' : Secret} (h : s'.content = s.content) :
  publishedAuthority? s' = publishedAuthority? s
  := by
  rw [publishedAuthority?, publishedAuthority?, Secret.text?_of_content h]

namespace Authority

variable {ca : Authority} {s : Store}

/-- An authority whose certificate is not stored is unlisted. -/
theorem unlisted_of_not_lists (h : ¬ s.Lists ca.certPem) :
  ca.Unlisted s
  := by
  constructor
  · intro ref cert hcert hsame
    obtain ⟨m, text, certs, hfind, htext, hparse, hmem⟩ := Bundle.exists_text_of_mem_listed hcert
    exact h ⟨text, certs, cert, .configMap hfind htext, hparse, hmem, hsame⟩
  · intro ref o first hfind hfirst hsame
    obtain ⟨text, rest, htext, hparse⟩ := LeafStage.publishedAuthority?_eq_some hfirst
    exact h ⟨text, _, first, .secret hfind htext, hparse, List.mem_cons_self, hsame⟩

/-- An authority stays unlisted when a secret is written that was told to trust no other. -/
theorem Unlisted.wrote {h h' : History} {ref : ResourceRef} {o live : Secret}
    (hunlisted : ca.Unlisted h.store) (hlive : h.store.find? .secret ref = some live)
    (hauthority : o.text? EntryKey.authority = live.text? EntryKey.authority) (hw : h.Wrote ref o h') :
  ca.Unlisted h'.store
  := by
  constructor
  · intro ref' cert hcert
    rw [hw.find?_of_ne (fun hsame => by cases hsame.1)] at hcert
    apply hunlisted.bundles ref' cert hcert
  · intro ref' o' first hfind hfirst
    by_cases hsame : ref' = ref
    · subst hsame
      rw [hw.find?_self] at hfind
      cases hfind
      apply hunlisted.untold ref' live first hlive
      rw [LeafStage.publishedAuthority?, Secret.text?_stamped, hauthority] at hfirst
      apply hfirst
    · rw [hw.find?_of_ne (fun hplace => hsame hplace.2)] at hfind
      apply hunlisted.untold ref' o' first hfind hfirst

end Authority

namespace Manager

/-- What a stage commits for a secret and a policy: nothing, or a rotation, before which the policy is
recorded if need be, before which the secret is created if need be. -/
inductive SecretSegment (ref : ResourceRef) (policy : Policy) : List Commit → Prop where
  | kept : SecretSegment ref policy []
  | rotated {before after : Secret} : before.Rotated policy after → after.IsAt ref →
      SecretSegment ref policy [⟨.secret, some before, after⟩]
  | recorded {before marked after : Secret} : before.Recorded policy marked → marked.IsAt ref →
      marked.Rotated policy after → after.IsAt ref →
      SecretSegment ref policy [⟨.secret, some before, marked⟩, ⟨.secret, some marked, after⟩]
  | created {blank marked after : Secret} : blank.content = {} → blank.IsAt ref →
      blank.Recorded policy marked → marked.IsAt ref → marked.Rotated policy after → after.IsAt ref →
      SecretSegment ref policy [⟨.secret, none, blank⟩, ⟨.secret, some blank, marked⟩,
        ⟨.secret, some marked, after⟩]

/-- What a stage commits for a bundle: nothing, its creation or its update. -/
inductive BundleSegment (ref : ResourceRef) : List Commit → Prop where
  | kept : BundleSegment ref []
  | created {after : ConfigMap} : after.IsAt ref → BundleSegment ref [⟨.configMap, none, after⟩]
  | updated {before after : ConfigMap} : after.IsAt ref →
      BundleSegment ref [⟨.configMap, some before, after⟩]

/-- The secret that is found or created, and what is committed for that. -/
inductive Ensured (ref : ResourceRef) : Option Secret → Secret → List Commit → Prop where
  | found {s : Secret} : Ensured ref (some s) s []
  | created {blank : Secret} : blank.content = {} → blank.annotationAt? AnnotationKey.policy = none →
      blank.IsAt ref → Ensured ref none blank [⟨.secret, none, blank⟩]

/-- The secret that a policy is recorded on, and what is committed for that. -/
inductive Opening (ref : ResourceRef) (policy : Policy) : Option Secret → Secret → List Commit → Prop
    where
  | kept {s : Secret} : s.annotationAt? AnnotationKey.policy = some policy.fingerprint →
      Opening ref policy (some s) s []
  | recorded {s marked : Secret} : s.Recorded policy marked → marked.IsAt ref →
      Opening ref policy (some s) marked [⟨.secret, some s, marked⟩]
  | created {blank marked : Secret} : blank.content = {} → blank.IsAt ref →
      blank.Recorded policy marked → marked.IsAt ref →
      Opening ref policy none marked [⟨.secret, none, blank⟩, ⟨.secret, some blank, marked⟩]

variable {q : Quiet} {h h' : History} {ref bundle : ResourceRef} {policy : Policy} {log : List Commit}
variable {live : Option Secret} {copy marked after : Secret} {d : Definition} {leaf : Leaf}
variable {ca : Authority} {stop : Stop → History → Prop}

/-! ### Writes of segments -/

/-- The writes of a segment for a secret. -/
theorem SecretSegment.writes (hs : SecretSegment ref policy log) :
  ∃ verbs ∈ [[], [.update], [.update, .update], [.create, .update, .update]],
    log.map Commit.write = verbs.map (fun verb => ⟨verb, .secret, ref⟩)
  := by
  have hwrite : ∀ {replaced : Option Secret} {after : Secret}, after.IsAt ref →
      Commit.write ⟨.secret, replaced, after⟩
        = ⟨if replaced.isNone then .create else .update, .secret, ref⟩ := by
    rintro replaced after ⟨hns, hname⟩
    rw [Commit.write, hns, hname]
    rfl
  cases hs with
  | kept => exact ⟨[], by simp, rfl⟩
  | rotated _ hat => exact ⟨[.update], by simp, by simp [hwrite hat]⟩
  | recorded _ hat _ hat' => exact ⟨[.update, .update], by simp, by simp [hwrite hat, hwrite hat']⟩
  | created _ hat _ hat' _ hat'' =>
    exact ⟨[.create, .update, .update], by simp, by simp [hwrite hat, hwrite hat', hwrite hat'']⟩

/-- The writes of a segment for a bundle. -/
theorem BundleSegment.writes (hs : BundleSegment ref log) :
  ∃ verbs ∈ [[], [.create], [.update]],
    log.map Commit.write = verbs.map (fun verb => ⟨verb, .configMap, ref⟩)
  := by
  have hwrite : ∀ {replaced : Option ConfigMap} {after : ConfigMap}, after.IsAt ref →
      Commit.write ⟨.configMap, replaced, after⟩
        = ⟨if replaced.isNone then .create else .update, .configMap, ref⟩ := by
    rintro replaced after ⟨hns, hname⟩
    rw [Commit.write, hns, hname]
    rfl
  cases hs with
  | kept => exact ⟨[], by simp, rfl⟩
  | created hat => exact ⟨[.create], by simp, by simp [hwrite hat]⟩
  | updated hat => exact ⟨[.update], by simp, by simp [hwrite hat]⟩

/-! ### Preparing a secret -/

/-- A secret that carries the record of a policy was not created. -/
theorem Ensured.kept (he : Ensured ref live copy log)
    (hpolicy : copy.annotationAt? AnnotationKey.policy = some policy.fingerprint) :
  Opening ref policy live copy log ∧ log = []
  := by
  cases he with
  | found => exact ⟨.kept hpolicy, rfl⟩
  | created _ hnone _ => cases hnone.symm.trans hpolicy

theorem Ensured.recorded (he : Ensured ref live copy log) (hrecorded : copy.Recorded policy marked)
    (hat : marked.IsAt ref) :
  Opening ref policy live marked (log ++ [⟨.secret, some copy, marked⟩])
  := by
  cases he with
  | found => exact .recorded hrecorded hat
  | created hcontent _ hblank => exact .created hcontent hblank hrecorded hat

theorem Opening.carries (ho : Opening ref policy live copy log) :
  copy.annotationAt? AnnotationKey.policy = some policy.fingerprint
  := by
  cases ho with
  | kept hpolicy => apply hpolicy
  | recorded hrecorded _ => apply hrecorded.recorded
  | created _ _ hrecorded _ => apply hrecorded.recorded

/-- A rotation ends a segment. -/
theorem Opening.rotated (ho : Opening ref policy live copy log) (hrotated : copy.Rotated policy after)
    (hat : after.IsAt ref) :
  SecretSegment ref policy (log ++ [⟨.secret, some copy, after⟩])
  := by
  cases ho with
  | kept _ => exact .rotated hrotated hat
  | recorded hrecorded hmarked => exact .recorded hrecorded hmarked hrotated hat
  | created hcontent hblank hrecorded hmarked =>
    exact .created hcontent hblank hrecorded hmarked hrotated hat

/-- What the secret was told to trust first, it was told before. -/
theorem Opening.exists_published (ho : Opening ref policy live copy log) {first : TrustedCertificate}
    (hfirst : LeafStage.publishedAuthority? copy = some first) :
  ∃ s, live = some s ∧ LeafStage.publishedAuthority? s = some first
  := by
  cases ho with
  | kept _ => exact ⟨copy, rfl, hfirst⟩
  | recorded hrecorded _ =>
    rw [LeafStage.publishedAuthority?_of_content hrecorded.content] at hfirst
    exact ⟨_, rfl, hfirst⟩
  | created hcontent _ hrecorded _ =>
    have hempty : copy.content = (⟨⟨ref.name, none, none, none, none⟩, {}⟩ : Secret).content :=
      hrecorded.content.trans hcontent
    rw [LeafStage.publishedAuthority?_of_content hempty] at hfirst
    cases hfirst

/-- A secret has been prepared for a policy: it is live, and if the policy had to be recorded, it is
due. -/
structure Opened (q : Quiet) (ref : ResourceRef) (policy : Policy) (h : History) (copy : Secret)
    (log : List Commit) (h' : History) : Prop where
  opening : Opening ref policy (h.store.find? .secret ref) copy log
  appends : h.Extends (History.only .secret ref) log h'
  live : h'.store.find? .secret ref = some copy
  due : q.Proper → log ≠ [] → ∀ refresh now, ¬ now.before h'.clock →
    ∃ reason, copy.metadata.due? refresh now = .ok (some reason)

/-- The creation of a secret creates it, or finds the one that is there. -/
theorem quietly_createSecret (ho : h.Orderly q) :
  (createSecret ref).Quietly q
    (fun copy h' => ∃ log, Ensured ref (h.store.find? .secret ref) copy log
      ∧ h.Extends (History.only .secret ref) log h' ∧ h'.store.find? .secret ref = some copy)
    stop h
  := by
  apply Procedure.safe_bind
  cases hfind : h.store.find? .secret ref with
  | none =>
    apply Procedure.quietly_askCreate ho rfl hfind
    intro h₁ h₂ hrests₁ hw
    apply Procedure.safe_pure
    exact ⟨_, .created rfl rfl hw.isAt, hw.extends_of_rests hrests₁ hfind, hw.find?_self⟩
  | some s =>
    apply Procedure.quietly_askCreate_of_some ho rfl hfind
    intro h₁ hrests₁
    have hlive₁ : h₁.store.find? .secret ref = some s := by rw [hrests₁.store, hfind]
    have hexists : (ApiFailure.alreadyExists .secret ref.name).isAlreadyExists = true := rfl
    simp only [hexists, if_true]
    apply Procedure.safe_bind
    apply Procedure.quietly_askGet (ho.rests hrests₁)
    intro h₂ hrests₂
    rw [Store.get, hlive₁]
    apply Procedure.safe_pure
    refine ⟨[], .found, (hrests₁.trans hrests₂).extends _, ?_⟩
    rw [hrests₂.store, hlive₁]

theorem quietly_ensureSecret (ho : h.Orderly q) (hwatched : q.watched.contains ref.ns) :
  (ensureSecret ref).Quietly q
    (fun copy h' => ∃ log, Ensured ref (h.store.find? .secret ref) copy log
      ∧ h.Extends (History.only .secret ref) log h' ∧ h'.store.find? .secret ref = some copy)
    stop h
  := by
  rw [ensureSecret_eq]
  apply Procedure.safe_bind
  apply Procedure.quietly_cached ho hwatched
  intro h₁ hrests₁
  cases hfind : h.store.find? .secret ref with
  | some s =>
    apply Procedure.safe_pure
    refine ⟨[], .found, hrests₁.extends _, ?_⟩
    rw [hrests₁.store, hfind]
  | none =>
    apply Procedure.safe_mono (quietly_createSecret (ho.rests hrests₁))
    rintro copy h₂ ⟨log, hensured, hextends, hlive⟩
    rw [hrests₁.store, hfind] at hensured
    exact ⟨log, hensured, (hrests₁.extends _).trans hextends, hlive⟩

/-- The policy is recorded on a secret that was found or created. -/
theorem quietly_ensurePolicy (ho : h'.Orderly q) (policy : Policy)
    (hensured : Ensured ref (h.store.find? .secret ref) copy log)
    (hextends : h.Extends (History.only .secret ref) log h')
    (hlive : h'.store.find? .secret ref = some copy) :
  (ensurePolicy copy ref policy).Quietly q (fun copy h' => ∃ log, Opened q ref policy h copy log h') stop h'
  := by
  apply Procedure.safe_bind
  apply Procedure.quietly_clock ho
  intro h₂ hrests₂ ho₂
  have hlive₂ : h₂.store.find? .secret ref = some copy := by rw [hrests₂.store, hlive]
  cases hrecord : copy.withFingerprint? policy.fingerprint h₂.clock with
  | none =>
    obtain ⟨hopening, hempty⟩ := hensured.kept ((Secret.withFingerprint?_eq_none _ _).mp hrecord)
    apply Procedure.safe_pure
    exact ⟨log, hopening, hextends.rests hrests₂, hlive₂, fun _ hne => absurd hempty hne⟩
  | some updated =>
    obtain ⟨-, -, hname, hversion, -⟩ := Secret.withFingerprint?_eq_some hrecord
    apply Procedure.quietly_update ho₂ (hname.trans (ho₂.named hlive₂)) hlive₂ hversion.symm
    intro h₃ h₄ hrests₃ hw
    refine ⟨_, hensured.recorded (Secret.recorded_of_withFingerprint? hrecord _ _) hw.isAt, ?_,
      hw.find?_self, ?_⟩
    · apply hextends.trans
      apply hw.extends_of_rests (hrests₂.trans hrests₃) hlive
    · intro hproper _ refresh now hlater
      rw [hw.clock] at hlater
      apply Secret.due_of_withFingerprint? hrecord (hproper.civil _ ho₂.shown)
        (Instant.not_before_trans hlater hrests₃.clock)

/-- A secret is prepared, whatever it was before. -/
theorem quietly_prepareSecret (ho : h.Orderly q) (hwatched : q.watched.contains ref.ns)
    (policy : Policy) :
  (prepareSecret q.watched ref policy).Quietly q
    (fun copy h' => ∃ log, Opened q ref policy h copy log h') stop h
  := by
  rw [prepareSecret_eq policy hwatched]
  apply Procedure.Quietly.bind ho (quietly_ensureSecret ho hwatched)
  rintro copy h₁ ho₁ ⟨log, hensured, hextends, hlive⟩
  apply quietly_ensurePolicy ho₁ policy hensured hextends hlive

end Manager

end CertKeeper
