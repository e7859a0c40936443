import CertKeeper.Proofs.Certificate.Renewal
import CertKeeper.Proofs.Manager.Issuing
import CertKeeper.Proofs.Rotation.Outcome
import CertKeeper.Proofs.Rotation.Schedule

/-!
# Renewals on schedule

A stage that has taken a key pair from the supply has issued a certificate at the time of the clock and
stored it, whatever the world was like (`SignerRequest.exists_live`, `LeafStage.exists_live`). When it is
run again on that secret, what it does depends on the schedule of that certificate alone: it keeps the
certificate as long as the schedule says so, and after that issues the next one. If the next one would last
beyond the year 9999, the stage stops instead and leaves everything as it is (`renewed_on_schedule`).
-/

namespace CertKeeper

/-- A secret is the one that a stage works on: the copy that is handed in, or else the one at the place of
the stage. It is live in a calm world. -/
structure Secret.Current (s : Secret) (known : Option Secret) (ref : ResourceRef) (watched : NameSet)
    (w : World) : Prop where
  calm : w.Calm watched
  watches : watched.contains ref.ns
  live : w.store.find? .secret ⟨ref.ns, s.name⟩ = some s
  known : known = some s ∨ known = none ∧ s.name = ref.name

/-- What a procedure comes to depends on the schedule of a certificate: the certificate is kept, or the
next one is issued, or that is refused. -/
structure Procedure.Renews {α : Type} (p : Procedure α) (same : α) (next : α → World → Prop)
    (issued : Instant) (policy : Policy) (certPem : String) (w : World) : Prop where
  kept_iff : World.run p w = (.ok same, w)
    ↔ Validity.InTime issued.seconds policy.lifetime.seconds policy.refresh w.clock
  renewed : ¬ Validity.InTime issued.seconds policy.lifetime.seconds policy.refresh w.clock →
    Validity.Possible w.clock policy.lifetime → Addressable certPem →
      ∃ a w', World.run p w = (.ok a, w') ∧ next a w'
  refused : ¬ Validity.InTime issued.seconds policy.lifetime.seconds policy.refresh w.clock →
    ¬ Validity.Possible w.clock policy.lifetime →
      ∃ e, Validity.starting w.clock policy.lifetime = .error e ∧ World.run p w = (.error e, w)

namespace Procedure

variable {α : Type} {watched : NameSet} {w : World} {ref : ResourceRef} {s : Secret}
variable {known : Option Secret} {stop : Stop → World → Prop}

/-- The secret that a stage works on is found without a call. -/
theorem leads_current {ok : Option Secret → World → Prop} (h : s.Current known ref watched w)
    (hok : ok (some s) w) :
  (current .secret known ref).Leads ok stop w
  := by
  unfold current
  rcases h.known with rfl | ⟨rfl, hname⟩
  · apply safe_pure hok
  · have hlive : w.store.find? .secret ref = some s := by
      rw [← h.live, hname]
    apply safe_bind
    apply leads_cached h.calm h.watches
    rw [hlive]
    apply safe_pure hok

/-- What a procedure leads to in time and after that tells when a certificate is kept. -/
theorem renews_of_leads {p : Procedure α} {same : α} {next : α → World → Prop} {issued : Instant}
    {policy : Policy} {certPem : String}
    (hkept : Validity.InTime issued.seconds policy.lifetime.seconds policy.refresh w.clock →
      p.Leads (fun a w' => a = same ∧ w' = w) (fun _ _ => False) w)
    (hnext : ¬ Validity.InTime issued.seconds policy.lifetime.seconds policy.refresh w.clock →
      p.Leads next (fun _ _ => Validity.Possible w.clock policy.lifetime → ¬ Addressable certPem) w)
    (hrefused : ¬ Validity.InTime issued.seconds policy.lifetime.seconds policy.refresh w.clock →
      ∀ e, Validity.starting w.clock policy.lifetime = .error e →
        p.Leads (fun _ _ => False) (fun e' w' => e' = e ∧ w' = w) w)
    (hchanged : ∀ a w', next a w' → w' ≠ w) :
  p.Renews same next issued policy certPem w
  := by
  constructor
  · constructor
    · intro hrun
      by_contra hlate
      exact hchanged _ _ ((hnext hlate).of_run hrun) rfl
    · intro hintime
      obtain ⟨a, w', hrun, rfl, rfl⟩ := (hkept hintime).exists_run
      apply hrun
  · intro hlate hpossible haddressable
    apply Leads.exists_run
    apply (hnext hlate).mono
    · intro _ _ ha
      apply ha
    · intro _ _ hunaddressable
      exact hunaddressable hpossible haddressable
  · intro hlate himpossible
    cases hv : Validity.starting w.clock policy.lifetime with
    | ok v => exact absurd (Validity.possible_of_starting hv) himpossible
    | error e =>
      refine ⟨e, rfl, ?_⟩
      have hends := leads_iff.mp (hrefused hlate e hv)
      cases hrun : World.run p w with
      | mk result w' =>
        rw [hrun] at hends
        cases result with
        | ok a => cases hends
        | error e' =>
          obtain ⟨rfl, rfl⟩ := hends
          rfl

end Procedure

/-! ### Signers -/

namespace SignerRequest

variable {r : SignerRequest} {ca : Authority} {watched : NameSet} {w w₁ : World} {s : Secret}
variable {issued : Instant} {stop : Stop → World → Prop}

/-- The secret of an authority that was issued records when it was issued. -/
theorem Issues.issuedAt {named : Instant} (h : r.Issues named w ca) (s : Secret) :
  Secret.IssuedAt (s.withKeyPair ca.certPem ca.keyPem ca.info) w.clock r.policy.lifetime
  := by
  obtain ⟨v, hv, hca⟩ := h
  obtain ⟨-, hinfo⟩ := Authority.generate_eq_ok hv hca
  have hnotBefore : ca.info.notBefore = .ofSeconds v.notBefore := by rw [hinfo]
  have hnotAfter : ca.info.notAfter = .ofSeconds v.notAfter := by rw [hinfo]
  apply (Secret.records_withKeyPair hv hnotBefore hnotAfter s ca.certPem ca.keyPem).issuedAt hv hnotBefore
  apply hnotAfter

/-- If a stage has taken a key pair, the authority that it has issued is live. -/
theorem exists_live (h : World.run r.ensure w = (.ok ca, w₁)) (hdrawn : w₁.keys ≠ w.keys) :
  r.Issues w.clock w ca ∧ ∃ s : Secret, w₁.store.find? .secret ⟨r.ref.ns, s.name⟩ = some s
    ∧ s.authority = .ok ca ∧ s.IssuedAt w.clock r.policy.lifetime
  := by
  obtain ⟨copy, hcopy, -⟩ | ⟨-, hissues, s, stored, hlive, store, rfl⟩ := (leads_ensure r w).of_run h
  · exact absurd (World.frame_of_current hcopy).2 hdrawn
  · obtain ⟨v, hv, hca⟩ := hissues
    have hloaded := (Authority.generate_eq_ok hv hca).1.loaded
    refine ⟨⟨v, hv, hca⟩, store.stamped r.ref.ns (s.withKeyPair ca.certPem ca.keyPem ca.info), hlive, ?_, ?_⟩
    · rw [Secret.authority_of_content (Object.content_stamped store r.ref.ns _)]
      apply Secret.authority_withKeyPair hloaded
    · apply (Issues.issuedAt ⟨v, hv, hca⟩ s).stamped

/-- A stage decides from the secret that it works on. -/
theorem leads_ensure_current {ok : Authority → World → Prop} (h : s.Current r.known r.ref watched w)
    (hok : ∀ ca, r.check s w.clock = .ok (.ok ca) → ok ca w)
    (hrotate : ∀ reason, r.check s w.clock = .ok (.error reason) →
      (r.rotate s w.clock reason).Leads ok stop w)
    (hstop : ∀ e, r.check s w.clock = .error e → stop e w) :
  r.ensure.Leads ok stop w
  := by
  unfold ensure
  apply Procedure.safe_bind
  apply Procedure.leads_current h
  apply Procedure.safe_bind
  apply Procedure.leads_clock
  apply Procedure.safe_bind
  apply Procedure.safe_ofComputation
  · intro outcome hcheck
    cases outcome with
    | ok ca =>
      apply Procedure.safe_pure
      apply hok ca hcheck
    | error reason => apply hrotate reason hcheck
  · apply hstop

/-- A stage keeps an authority that passes the check. -/
theorem leads_ensure_kept (h : s.Current r.known r.ref watched w)
    (hcheck : r.check s w.clock = .ok (.ok ca)) :
  r.ensure.Leads (fun ca' w' => ca' = ca ∧ w' = w) (fun _ _ => False) w
  := by
  apply leads_ensure_current h
  · intro ca' hca'
    cases hcheck.symm.trans hca'
    exact ⟨rfl, rfl⟩
  · intro reason hreason
    cases hcheck.symm.trans hreason
  · intro e he
    cases hcheck.symm.trans he

/-- A stage rotates a secret that does not pass the check. -/
theorem leads_ensure_rotated {ok : Authority → World → Prop} {reason : Reason}
    (h : s.Current r.known r.ref watched w) (hcheck : r.check s w.clock = .ok (.error reason))
    (hrotate : (r.rotate s w.clock reason).Leads ok stop w) :
  r.ensure.Leads ok stop w
  := by
  apply leads_ensure_current h
  · intro ca' hca'
    cases hcheck.symm.trans hca'
  · intro reason' hreason'
    cases hcheck.symm.trans hreason'
    apply hrotate
  · intro e he
    cases hcheck.symm.trans he

/-- A secret with an authority is due when the schedule says so. -/
theorem check_late (hca : s.authority = .ok ca) (hissued : s.IssuedAt issued r.policy.lifetime)
    (hlate : ¬ Validity.InTime issued.seconds r.policy.lifetime.seconds r.policy.refresh w.clock) :
  ∃ reason, r.check s w.clock = .ok (.error reason)
  := by
  obtain ⟨reason, hdue⟩ := hissued.exists_due hlate
  refine ⟨.due reason, ?_⟩
  rw [check, hca]
  simp only [hdue]
  rfl

/-- No authority is made for a validity that is not possible. -/
theorem leads_rotate_refused {e : Stop} (hv : Validity.starting w.clock r.policy.lifetime = .error e)
    (now : Instant) (reason : Reason) :
  (r.rotate s now reason).Leads (fun _ _ => False) (fun e' w' => e' = e ∧ w' = w) w
  := by
  unfold rotate
  apply Procedure.safe_bind
  apply Procedure.leads_clock
  apply Procedure.safe_bind
  apply Procedure.safe_ofComputation
  · intro v hv'
    cases hv.symm.trans hv'
  · intro e' hv'
    cases hv.symm.trans hv'
    exact ⟨rfl, rfl⟩

/-- The name of a signer is not much longer than the one that it had at another time. -/
theorem utf8ByteSize_commonName_le_add (r : SignerRequest) (before : Instant)
    (hpossible : Validity.Possible w.clock r.policy.lifetime) :
  (r.commonName w.clock).utf8ByteSize ≤ (r.commonName before).utf8ByteSize + 100
  := by
  obtain ⟨hfrom, hto⟩ := hpossible
  have hname := r.utf8ByteSize_commonName_le hfrom (by omega)
  have hplace : r.ref.ns.utf8ByteSize + r.ref.name.utf8ByteSize ≤ (r.commonName before).utf8ByteSize := by
    simp only [commonName, String.utf8ByteSize_append]
    omega
  omega

/-- A stage for a signer keeps an authority on schedule. -/
theorem renews {v : Validity} {commonName : String} {seed : Nat} (h : s.Current r.known r.ref watched w)
    (hca : s.authority = .ok ca) (hissued : s.IssuedAt issued r.policy.lifetime)
    (hmade : Authority.generate commonName v (KeyPair.generate seed) = .ok ca)
    (hname : Validity.Possible w.clock r.policy.lifetime →
      (r.commonName w.clock).utf8ByteSize ≤ commonName.utf8ByteSize + 100) :
  r.ensure.Renews ca
    (fun ca' w' => r.Issues w.clock w ca' ∧ w.Wrote watched .update ⟨r.ref.ns, s.name⟩
      (s.withKeyPair ca'.certPem ca'.keyPem ca'.info) w')
    issued r.policy ca.certPem w
  := by
  apply Procedure.renews_of_leads
  · intro hintime
    apply leads_ensure_kept h
    rw [check_eq_ok_ok]
    exact ⟨hca, hissued.due?_eq_none_iff.mpr hintime⟩
  · intro hlate
    obtain ⟨reason, hcheck⟩ := check_late hca hissued hlate
    apply leads_ensure_rotated h hcheck
    apply (Manager.leads_replaceSignerAt h.calm h.live rfl rfl h.watches w.clock reason _).mono
    · rintro ca' w' ⟨v', hv', hca', hwrote⟩
      exact ⟨⟨v', hv', hca'⟩, hwrote⟩
    · intro _ _ hnone
      apply hnone
    · intro hnone _ _ hpossible haddressable
      obtain ⟨ca', hca'⟩ := Authority.exists_generate_again hmade haddressable (hname hpossible)
        (Validity.starting_eq hpossible) w.keys
      exact hnone _ (Validity.starting_eq hpossible) ca' hca'
  · intro hlate e hv
    obtain ⟨reason, hcheck⟩ := check_late hca hissued hlate
    apply leads_ensure_rotated h hcheck
    apply leads_rotate_refused hv
  · rintro ca' w' ⟨-, hwrote⟩ rfl
    have hwrites := congrArg List.length hwrote.writes
    simp at hwrites

end SignerRequest

/-! ### Leaves -/

namespace LeafStage

variable {r : LeafStage} {ca : Authority} {watched : NameSet} {w w₁ : World} {s : Secret}
variable {issued : Instant} {stop : Stop → World → Prop} {cert : IssuedCertificate}
variable {rest : List TrustedCertificate}

/-- If a stage has taken a key pair, the certificate that it has issued is live and serves. -/
theorem exists_live (hca : ca.Loaded) (hrest : ∀ c ∈ rest, c.Genuine)
    (h : World.run (r.ensure ca (ca.trusted :: rest)) w = (.ok (), w₁)) (hdrawn : w₁.keys ≠ w.keys) :
  ∃ cert, r.Issues ca w cert ∧ ∃ s : Secret, w₁.store.find? .secret ⟨r.ref.ns, s.name⟩ = some s
    ∧ s.text? EntryKey.certificate = some cert.certPem ∧ r.mismatch? s ca = none
    ∧ s.IssuedAt w.clock r.policy.lifetime
  := by
  obtain ⟨_, hleaves⟩ := (leads_ensure r ca (ca.trusted :: rest) w).of_run h
  obtain ⟨cert, hissues, s, hlive, store, rfl⟩ := hleaves.of_drawn hdrawn
  have hgenuine : ∀ c ∈ ca.trusted :: rest, c.Genuine := by
    intro c hc
    rcases List.mem_cons.mp hc with rfl | hc
    · apply hca.genuine
    · apply hrest c hc
  obtain ⟨v, hv, hserves⟩ := Authority.serves_of_sign hissues
  refine ⟨cert, hissues, store.stamped r.ref.ns (r.filled s ca (ca.trusted :: rest) cert), hlive, ?_, ?_, ?_⟩
  · rw [Secret.text?_stamped]
    apply texts_filled.1
  · rw [mismatch?_stamped]
    apply mismatch?_filled hissues hgenuine
  · apply Secret.IssuedAt.stamped
    apply (records_filled hissues).issuedAt hv hserves.notBefore hserves.notAfter

/-- A stage decides from the secret that it works on. -/
theorem leads_ensure_current {bundle : List TrustedCertificate} {ok : Unit → World → Prop}
    (h : s.Current r.known r.ref watched w)
    (hok : r.reason? s ca w.clock = .ok none → ok () w)
    (hrotate : ∀ reason, r.reason? s ca w.clock = .ok (some reason) →
      (r.rotate s ca bundle reason).Leads ok stop w)
    (hstop : ∀ e, r.reason? s ca w.clock = .error e → stop e w) :
  (r.ensure ca bundle).Leads ok stop w
  := by
  unfold ensure
  apply Procedure.safe_bind
  apply Procedure.leads_current h
  apply Procedure.safe_bind
  apply Procedure.leads_clock
  apply Procedure.safe_bind
  apply Procedure.safe_ofComputation
  · intro reason? hreason
    cases reason? with
    | none =>
      apply Procedure.safe_pure
      apply hok hreason
    | some reason => apply hrotate reason hreason
  · apply hstop

/-- A stage keeps a certificate when nothing speaks against it. -/
theorem leads_ensure_kept {bundle : List TrustedCertificate} (h : s.Current r.known r.ref watched w)
    (hreason : r.reason? s ca w.clock = .ok none) :
  (r.ensure ca bundle).Leads (fun a w' => a = () ∧ w' = w) (fun _ _ => False) w
  := by
  apply leads_ensure_current h
  · intro _
    exact ⟨rfl, rfl⟩
  · intro reason' hreason'
    cases hreason.symm.trans hreason'
  · intro e he
    cases hreason.symm.trans he

/-- A stage rotates a secret when there is a reason to. -/
theorem leads_ensure_rotated {bundle : List TrustedCertificate} {ok : Unit → World → Prop}
    {reason : Reason} (h : s.Current r.known r.ref watched w)
    (hreason : r.reason? s ca w.clock = .ok (some reason))
    (hrotate : (r.rotate s ca bundle reason).Leads ok stop w) :
  (r.ensure ca bundle).Leads ok stop w
  := by
  apply leads_ensure_current h
  · intro hnone
    cases hreason.symm.trans hnone
  · intro reason' hreason'
    cases hreason.symm.trans hreason'
    apply hrotate
  · intro e he
    cases hreason.symm.trans he

/-- A certificate that serves is kept, or due, as the schedule says. -/
theorem reason?_eq (hserves : r.mismatch? s ca = none) (now : Instant) :
  r.reason? s ca now = (s.metadata.due? r.policy.refresh now).map (Option.map Reason.due)
  := by
  rw [reason?, hserves]
  cases s.metadata.due? r.policy.refresh now <;> rfl

/-- No certificate is issued for a validity that is not possible. -/
theorem leads_rotate_refused {e : Stop} {subject : String}
    (hcommonName : r.request.commonName = .ok subject)
    (hv : Validity.starting w.clock r.policy.lifetime = .error e) (bundle : List TrustedCertificate)
    (reason : Reason) :
  (r.rotate s ca bundle reason).Leads (fun _ _ => False) (fun e' w' => e' = e ∧ w' = w) w
  := by
  have hprepare : ca.prepare r.request w.clock r.policy.lifetime = .error e := by
    rw [Authority.prepare, hcommonName, hv]
    rfl
  unfold rotate issue
  apply Procedure.safe_bind
  apply Procedure.safe_bind
  apply Procedure.leads_clock
  apply Procedure.safe_bind
  apply Procedure.safe_ofComputation
  · intro prepared hprepared
    cases hprepare.symm.trans hprepared
  · intro e' he'
    cases hprepare.symm.trans he'
    exact ⟨rfl, rfl⟩

/-- A stage for a leaf keeps a certificate on schedule. -/
theorem renews {before : Instant} {lifetime : Duration} {seed : Nat} {bundle : List TrustedCertificate}
    (h : s.Current r.known r.ref watched w) (hserves : r.mismatch? s ca = none)
    (hissued : s.IssuedAt issued r.policy.lifetime)
    (hmade : ca.sign r.request before lifetime (KeyPair.generate seed) = .ok cert) :
  (r.ensure ca bundle).Renews ()
    (fun _ w' => ∃ cert', r.Issues ca w cert'
      ∧ w.Wrote watched .update ⟨r.ref.ns, s.name⟩ (r.filled s ca bundle cert') w')
    issued r.policy cert.certPem w
  := by
  have hlate : ¬ Validity.InTime issued.seconds r.policy.lifetime.seconds r.policy.refresh w.clock →
      ∃ reason, r.reason? s ca w.clock = .ok (some reason) := by
    intro hlate
    obtain ⟨reason, hdue⟩ := hissued.exists_due hlate
    rw [reason?_eq hserves, hdue]
    exact ⟨_, rfl⟩
  apply Procedure.renews_of_leads
  · intro hintime
    apply leads_ensure_kept h
    rw [reason?_eq hserves, hissued.due?_eq_none_iff.mpr hintime]
    rfl
  · intro hnot
    obtain ⟨reason, hreason⟩ := hlate hnot
    apply leads_ensure_rotated h hreason
    apply (Manager.leads_replaceLeafAt h.calm h.live rfl rfl h.watches bundle reason _).mono
    · rintro _ w' ⟨cert', hcert', hwrote⟩
      exact ⟨cert', hcert', hwrote⟩
    · intro _ _ hnone
      apply hnone
    · intro hnone _ _ hpossible haddressable
      obtain ⟨cert', hcert'⟩ := Authority.exists_sign_again hmade haddressable hpossible w.keys
      exact hnone cert' hcert'
  · intro hnot e hv
    obtain ⟨reason, hreason⟩ := hlate hnot
    obtain ⟨subject, _, _, _, _, _, hprepare, -⟩ := Authority.exists_leaf_of_sign hmade
    apply leads_ensure_rotated h hreason
    apply leads_rotate_refused (Authority.prepare_eq_ok hprepare).1 hv
  · rintro _ w' ⟨cert', -, hwrote⟩ rfl
    have hwrites := congrArg List.length hwrote.writes
    simp at hwrites

end LeafStage

/-! ### Secrets without content -/

/-- A secret that is live in a calm world is the one that a stage works on, if it is handed in. It stays so
when the clock is set. -/
theorem Secret.current_of_live {s : Secret} {ref : ResourceRef} {watched : NameSet} {w : World}
    (hw : w.Calm watched) (hwatched : watched.contains ref.ns)
    (hlive : w.store.find? .secret ⟨ref.ns, s.name⟩ = some s) (now : Instant) :
  s.Current (some s) ref watched { w with clock := now }
  := ⟨⟨hw.faults, hw.snapshot, hw.held, hw.watches, hw.caughtUp⟩, hwatched, hlive, .inl rfl⟩

/-- There is a calm world with a secret that has no content yet. -/
theorem World.exists_blank (name : String) (now : Instant) :
  ∃ (w : World) (s : Secret), w.clock = now ∧ s.Current none ⟨"pki", name⟩ (NameSet.ofNames ["pki"]) w
    ∧ ∀ key, s.bytes? key = none
  := by
  obtain ⟨store, hstore⟩ : ∃ store : Store, store = Store.new ["pki"] := ⟨_, rfl⟩
  have hempty : World.Calm (NameSet.ofNames ["pki"]) { store := store, clock := now } :=
    hstore ▸ calm_new ["pki"] now
  have hcalm : World.Calm (NameSet.ofNames ["pki"])
      { store := (store.commit .create "pki" (Secret.new ⟨"pki", name⟩)).2, clock := now } :=
    hempty.commit .create rfl rfl rfl
  have hwatched : (NameSet.ofNames ["pki"]).contains "pki" = true := by decide
  refine ⟨_, store.stamped "pki" (Secret.new ⟨"pki", name⟩), rfl,
    ⟨hcalm, hwatched, ?_, .inr ⟨rfl, rfl⟩⟩, ?_⟩
  · apply Store.find?_commit_self
  · intro _
    rfl

namespace SignerRequest

variable {r : SignerRequest} {watched : NameSet} {w : World} {s : Secret}

/-- A stage issues an authority where a secret has no content. -/
theorem exists_run_of_blank (h : s.Current r.known r.ref watched w) (hblank : ∀ key, s.bytes? key = none)
    (hpossible : Validity.Possible w.clock r.policy.lifetime)
    (hsize : (r.commonName w.clock).utf8ByteSize ≤ 9000000000000000000) :
  ∃ ca w₁, World.run r.ensure w = (.ok ca, w₁) ∧ w₁.keys ≠ w.keys ∧ w₁.Calm watched
    ∧ w₁.clock = w.clock
  := by
  have hnone : ∀ ca, s.authority ≠ .ok ca := by
    intro ca hca
    have htext := Secret.certificate_of_authority hca
    rw [Secret.text?, hblank] at htext
    cases htext
  have hleads : r.ensure.Leads (fun _ w₁ => w₁.Calm watched ∧ w₁.clock = w.clock) (fun _ _ => False) w := by
    apply leads_ensure_current h
    · intro ca hca
      exact absurd (check_eq_ok_ok.mp hca).1 (hnone ca)
    · intro reason _
      apply (Manager.leads_replaceSignerAt h.calm h.live rfl rfl h.watches w.clock reason _).mono
      · rintro ca w₁ ⟨_, _, _, hwrote⟩
        exact ⟨hwrote.calm, hwrote.clock⟩
      · intro _ _ he
        apply he
      · intro himpossible
        obtain ⟨ca, hca⟩ := Authority.exists_generate_of_size (Validity.starting_eq hpossible) hsize w.keys
        exact absurd hca (himpossible _ (Validity.starting_eq hpossible) ca)
    · intro e he
      obtain ⟨ca, hca, -⟩ := check_eq_error he
      exact hnone ca hca
  obtain ⟨ca, w₁, hrun, hcalm, hclock⟩ := hleads.exists_run
  refine ⟨ca, w₁, hrun, ?_, hcalm, hclock⟩
  obtain ⟨copy, hcopy, hcheck⟩ | ⟨hdrawn, -⟩ := (leads_ensure r w).of_run hrun
  · have hfound : (Procedure.current .secret r.known r.ref).Leads (fun copy _ => copy = some s)
        (fun _ _ => True) w := Procedure.leads_current h rfl
    rw [hfound.of_run hcopy] at hcheck
    exact absurd (check_eq_ok_ok.mp hcheck).1 (hnone ca)
  · omega

/-- There is a stage that issues an authority at a time with a policy, if the validity is possible. -/
theorem exists_run (policy : Policy) {now : Instant}
    (hpossible : Validity.Possible now policy.lifetime) :
  ∃ (r : SignerRequest) (w w₁ : World) (ca : Authority), r.policy = policy ∧ r.ref = ⟨"pki", "ca"⟩
    ∧ w.clock = now ∧ World.run r.ensure w = (.ok ca, w₁) ∧ w₁.keys ≠ w.keys
    ∧ w₁.Calm (NameSet.ofNames ["pki"])
  := by
  obtain ⟨w, s, rfl, hcurrent, hblank⟩ := World.exists_blank "ca" now
  obtain ⟨r, hr⟩ : ∃ r : SignerRequest, r = ⟨⟨"pki", "ca"⟩, policy, none⟩ := ⟨_, rfl⟩
  have hpolicy : r.policy = policy := by rw [hr]
  have hplace : r.ref = ⟨"pki", "ca"⟩ := by rw [hr]
  have hsize : (r.commonName w.clock).utf8ByteSize ≤ 9000000000000000000 := by
    obtain ⟨hfrom, hto⟩ := hpossible
    apply Nat.le_trans (r.utf8ByteSize_commonName_le hfrom (by omega))
    rw [hplace]
    decide
  have hcurrent' : s.Current r.known r.ref (NameSet.ofNames ["pki"]) w := by
    rw [hr]
    apply hcurrent
  obtain ⟨ca, w₁, hrun, hdrawn, hcalm, -⟩ :=
    exists_run_of_blank hcurrent' hblank (hpolicy ▸ hpossible) hsize
  exact ⟨r, w, w₁, ca, hpolicy, hplace, rfl, hrun, hdrawn, hcalm⟩

end SignerRequest

namespace LeafStage

variable {r : LeafStage} {ca : Authority} {watched : NameSet} {w : World} {s : Secret}

/-- A stage that has a reason to issues a certificate if there is one to issue. -/
theorem exists_run_of_reason {cert : IssuedCertificate} {reason : Reason}
    (h : s.Current r.known r.ref watched w) (hreason : r.reason? s ca w.clock = .ok (some reason))
    (hcert : r.Issues ca w cert) (bundle : List TrustedCertificate) :
  ∃ w₁, World.run (r.ensure ca bundle) w = (.ok (), w₁) ∧ w₁.keys ≠ w.keys ∧ w₁.Calm watched
    ∧ w₁.clock = w.clock
  := by
  have hleads : (r.ensure ca bundle).Leads (fun _ w₁ => w₁.Calm watched ∧ w₁.clock = w.clock)
      (fun _ _ => False) w := by
    apply leads_ensure_rotated h hreason
    apply (Manager.leads_replaceLeafAt h.calm h.live rfl rfl h.watches bundle _ _).mono
    · rintro _ w₁ ⟨_, _, hwrote⟩
      exact ⟨hwrote.calm, hwrote.clock⟩
    · intro _ _ he
      apply he
    · intro himpossible
      exact absurd hcert (himpossible cert)
  obtain ⟨_, w₁, hrun, hcalm, hclock⟩ := hleads.exists_run
  refine ⟨w₁, hrun, ?_, hcalm, hclock⟩
  obtain ⟨_, ⟨hcopy, hserves⟩ | ⟨_, hdrawn, -, -⟩⟩ := (leads_ensure r ca bundle w).of_run hrun
  · have hfound : (Procedure.current .secret r.known r.ref).Leads (fun copy _ => copy = some s)
        (fun _ _ => True) w := Procedure.leads_current h rfl
    cases hfound.of_run hcopy
    cases hreason.symm.trans hserves
  · exact Nat.ne_of_gt hdrawn

/-- A stage issues a certificate where a secret has no content. -/
theorem exists_run_of_blank {cert : IssuedCertificate} (h : s.Current r.known r.ref watched w)
    (hblank : ∀ key, s.bytes? key = none) (hcert : r.Issues ca w cert)
    (bundle : List TrustedCertificate) :
  ∃ w₁, World.run (r.ensure ca bundle) w = (.ok (), w₁) ∧ w₁.keys ≠ w.keys ∧ w₁.Calm watched
    ∧ w₁.clock = w.clock
  := by
  have hreason : r.reason? s ca w.clock = .ok (some (.missing EntryKey.certificate)) := by
    rw [reason?, mismatch?_of_blank hblank]
  apply exists_run_of_reason h hreason hcert

end LeafStage

/-! ### The schedule -/

/-- A stage that has issued a certificate and stored it keeps it until one of two points of time: the
renewal time after its start, and four fifths of its validity. When the stage is run again, on the secret
that holds the certificate, then before both it comes to the same certificate and does nothing else. After
that it issues the next one, if that one can end before the year 10000 (and the text of the first fits into
memory), and otherwise it stops and leaves everything as it is. -/
theorem renewed_on_schedule :
  (∀ (r : SignerRequest) (w w₁ : World) (ca : Authority), World.run r.ensure w = (.ok ca, w₁) →
    w₁.keys ≠ w.keys →
      r.Issues w.clock w ca ∧ ∃ s : Secret, w₁.store.find? .secret ⟨r.ref.ns, s.name⟩ = some s
        ∧ s.authority = .ok ca
        ∧ ∀ known watched w₂, s.Current known r.ref watched w₂ →
          (SignerRequest.ensure { r with known := known }).Renews ca
            (fun ca' w₃ => r.Issues w₂.clock w₂ ca' ∧ w₂.Wrote watched .update ⟨r.ref.ns, s.name⟩
              (s.withKeyPair ca'.certPem ca'.keyPem ca'.info) w₃)
            w.clock r.policy ca.certPem w₂)
    ∧ ∀ (r : LeafStage) (ca : Authority) (rest : List TrustedCertificate) (w w₁ : World), ca.Loaded →
      (∀ c ∈ rest, c.Genuine) → World.run (r.ensure ca (ca.trusted :: rest)) w = (.ok (), w₁) →
      w₁.keys ≠ w.keys →
        ∃ cert, r.Issues ca w cert ∧ ∃ s : Secret,
          w₁.store.find? .secret ⟨r.ref.ns, s.name⟩ = some s
          ∧ s.text? EntryKey.certificate = some cert.certPem
          ∧ ∀ known rest' watched w₂, s.Current known r.ref watched w₂ →
            (LeafStage.ensure { r with known := known } ca (ca.trusted :: rest')).Renews ()
              (fun _ w₃ => ∃ cert', r.Issues ca w₂ cert' ∧ w₂.Wrote watched .update ⟨r.ref.ns, s.name⟩
                (r.filled s ca (ca.trusted :: rest') cert') w₃)
              w.clock r.policy cert.certPem w₂
  := by
  constructor
  · intro r w w₁ ca hrun hdrawn
    obtain ⟨hissues, s, hlive, hca, hissued⟩ := SignerRequest.exists_live hrun hdrawn
    refine ⟨hissues, s, hlive, hca, ?_⟩
    intro known watched w₂ hcurrent
    obtain ⟨v, hv, hmade⟩ := hissues
    apply SignerRequest.renews (r := { r with known := known }) hcurrent hca hissued hmade
    intro hpossible
    apply SignerRequest.utf8ByteSize_commonName_le_add r w.clock hpossible
  · intro r ca rest w w₁ hca hrest hrun hdrawn
    obtain ⟨cert, hissues, s, hlive, hcert, hserves, hissued⟩ :=
      LeafStage.exists_live hca hrest hrun hdrawn
    refine ⟨cert, hissues, s, hlive, hcert, ?_⟩
    intro known rest' watched w₂ hcurrent
    apply LeafStage.renews (r := { r with known := known }) hcurrent hserves hissued hissues

/-- An authority that was issued for 7.9 seconds, with a renewal time beyond the calendar, is kept until
5.6 seconds after the start of the second in which it was issued, and then it is renewed. A client
certificate that was issued for five seconds, with three to its renewal, is kept until the third second. -/
theorem renewed_at_four_fifths :
  (∃ (r : SignerRequest) (w w₁ : World) (ca : Authority) (s : Secret),
    r.policy = ⟨⟨7900000000, by decide⟩, ⟨18446744073709551615 * nanosPerSecond + 999999999, by decide⟩⟩
    ∧ w.clock = ⟨1000000000, 999999999, by decide⟩ ∧ World.run r.ensure w = (.ok ca, w₁)
    ∧ World.run (SignerRequest.ensure { r with known := some s })
        { w₁ with clock := ⟨1000000005, 599999999, by decide⟩ }
      = (.ok ca, { w₁ with clock := ⟨1000000005, 599999999, by decide⟩ })
    ∧ ∃ ca' w₃, World.run (SignerRequest.ensure { r with known := some s })
        { w₁ with clock := ⟨1000000005, 600000000, by decide⟩ } = (.ok ca', w₃)
      ∧ ({ w₁ with clock := ⟨1000000005, 600000000, by decide⟩ } : World).Wrote (NameSet.ofNames ["pki"])
        .update ⟨r.ref.ns, s.name⟩ (s.withKeyPair ca'.certPem ca'.keyPem ca'.info) w₃)
    ∧ ∃ (r : LeafStage) (ca : Authority) (w w₁ : World) (s : Secret),
      r.policy = ⟨⟨5 * nanosPerSecond, by decide⟩, ⟨3 * nanosPerSecond, by decide⟩⟩
      ∧ w.clock = .ofSeconds 0 ∧ World.run (r.ensure ca [ca.trusted]) w = (.ok (), w₁)
      ∧ World.run (LeafStage.ensure { r with known := some s } ca [ca.trusted])
          { w₁ with clock := ⟨2, 999999999, by decide⟩ }
        = (.ok (), { w₁ with clock := ⟨2, 999999999, by decide⟩ })
      ∧ World.run (LeafStage.ensure { r with known := some s } ca [ca.trusted])
          { w₁ with clock := .ofSeconds 3 } ≠ (.ok (), { w₁ with clock := .ofSeconds 3 })
  := by
  have hwatched : (NameSet.ofNames ["pki"]).contains "pki" = true := by decide
  constructor
  · have hpossible : Validity.Possible ⟨1000000000, 999999999, by decide⟩ ⟨7900000000, by decide⟩ := by
      unfold Validity.Possible
      decide
    obtain ⟨r, w, w₁, ca, hpolicy, hplace, hclock, hrun, hdrawn, hcalm⟩ := SignerRequest.exists_run
      ⟨⟨7900000000, by decide⟩, ⟨18446744073709551615 * nanosPerSecond + 999999999, by decide⟩⟩ hpossible
    obtain ⟨hissues, s, hlive, -, hrenews⟩ := renewed_on_schedule.1 r w w₁ ca hrun hdrawn
    have hwatched' : (NameSet.ofNames ["pki"]).contains r.ref.ns = true := hplace ▸ hwatched
    have hlater := fun now => hrenews (some s) (NameSet.ofNames ["pki"]) { w₁ with clock := now }
      (Secret.current_of_live hcalm hwatched' hlive now)
    have haddressable : Addressable ca.certPem := by
      obtain ⟨v, hv, hmade⟩ := hissues
      have htext := Authority.utf8ByteSize_certPem_le hv hmade
      have hname : (r.commonName w.clock).utf8ByteSize ≤ 100 := by
        rw [SignerRequest.commonName, hplace, hclock]
        decide
      unfold Addressable
      omega
    refine ⟨r, w, w₁, ca, s, hpolicy, hclock, hrun, ?_, ?_⟩
    · apply (hlater _).kept_iff.mpr
      rw [hclock, hpolicy]
      norm_num [Validity.InTime, Instant.EarlierThan, Instant.inLeapSecond, Duration.seconds,
        nanosPerSecond]
    · have hlate : ¬ Validity.InTime w.clock.seconds r.policy.lifetime.seconds r.policy.refresh
          ⟨1000000005, 600000000, by decide⟩ := by
        rw [hclock, hpolicy]
        norm_num [Validity.InTime, Instant.EarlierThan, Instant.inLeapSecond, Duration.seconds,
          nanosPerSecond]
      have hpossible' : Validity.Possible ⟨1000000005, 600000000, by decide⟩ r.policy.lifetime := by
        rw [hpolicy]
        unfold Validity.Possible
        decide
      obtain ⟨ca', w₃, hrun', -, hwrote⟩ := (hlater _).renewed hlate hpossible' haddressable
      exact ⟨ca', w₃, hrun', hwrote⟩
  · obtain ⟨policy, hpolicy⟩ : ∃ policy : Policy,
        policy = ⟨⟨5 * nanosPerSecond, by decide⟩, ⟨3 * nanosPerSecond, by decide⟩⟩ := ⟨_, rfl⟩
    have hpossible : Validity.Possible (.ofSeconds 0) policy.lifetime := by
      rw [hpolicy]
      exact Validity.possible_ofSeconds (by decide)
    have hv := Validity.starting_eq hpossible
    obtain ⟨ca, hca⟩ : ∃ ca, Authority.generate "pki_ca@0" _ (KeyPair.generate 0) = .ok ca := by
      apply Authority.exists_generate_of_size hv
      decide
    have hloaded := (Authority.of_generate hv hca).1
    obtain ⟨w, s₀, hclock, hcurrent, hblank⟩ := World.exists_blank "leaf" (.ofSeconds 0)
    obtain ⟨r, hr⟩ : ∃ r : LeafStage, r = ⟨⟨"pki", "leaf"⟩, policy, .client "operator", none⟩ := ⟨_, rfl⟩
    obtain ⟨cert, hcert⟩ : ∃ cert, r.Issues ca w cert := by
      unfold LeafStage.Issues
      rw [hr, hclock]
      have hsize : "pki_ca@0".utf8ByteSize + "operator".utf8ByteSize + AltName.room []
          ≤ 18000000000000000000 := by decide
      apply (Authority.exists_sign_of_generate hv hca rfl rfl hpossible hsize).2
    have hcurrent' : s₀.Current r.known r.ref (NameSet.ofNames ["pki"]) w := by
      rw [hr]
      apply hcurrent
    obtain ⟨w₁, hrun, hdrawn, hcalm, -⟩ :=
      LeafStage.exists_run_of_blank hcurrent' hblank hcert [ca.trusted]
    obtain ⟨_, -, s, hlive, -, hrenews⟩ := renewed_on_schedule.2 r ca [] w w₁ hloaded (by simp) hrun hdrawn
    have hwatched' : (NameSet.ofNames ["pki"]).contains r.ref.ns = true := by
      rw [hr]
      apply hwatched
    have hpolicy' : r.policy = ⟨⟨5 * nanosPerSecond, by decide⟩, ⟨3 * nanosPerSecond, by decide⟩⟩ := by
      rw [hr, ← hpolicy]
    have hlater := fun now => (hrenews (some s) [] (NameSet.ofNames ["pki"]) { w₁ with clock := now }
      (Secret.current_of_live hcalm hwatched' hlive now)).kept_iff
    refine ⟨r, ca, w, w₁, s, hpolicy', hclock, hrun, ?_, ?_⟩
    · apply (hlater _).mpr
      rw [hclock, hpolicy']
      norm_num [Validity.InTime, Instant.EarlierThan, Instant.inLeapSecond, Instant.ofSeconds,
        Duration.seconds, nanosPerSecond]
    · intro hkept
      have hintime := (hlater _).mp hkept
      rw [hclock, hpolicy'] at hintime
      norm_num [Validity.InTime, Instant.EarlierThan, Instant.inLeapSecond, Instant.ofSeconds,
        Duration.seconds, nanosPerSecond] at hintime

/-- An authority that was issued in the last month of the calendar, for twenty days and with ten days to
its renewal, is due after fourteen days, and yet none is issued then. -/
theorem refused_at_end_of_calendar :
  ∃ (r : SignerRequest) (w w₁ : World) (ca : Authority) (s : Secret),
    r.policy = ⟨⟨1728000 * nanosPerSecond, by decide⟩, ⟨864000 * nanosPerSecond, by decide⟩⟩
    ∧ w.clock = .ofSeconds 253399622400 ∧ World.run r.ensure w = (.ok ca, w₁) ∧ w₁.keys ≠ w.keys
    ∧ w₁.store.find? .secret ⟨r.ref.ns, s.name⟩ = some s ∧ s.authority = .ok ca
    ∧ ¬ Validity.InTime 253399622400 1728000 r.policy.refresh (.ofSeconds 253400832000)
    ∧ ∃ e, World.run (SignerRequest.ensure { r with known := some s })
        { w₁ with clock := .ofSeconds 253400832000 }
      = (.error e, { w₁ with clock := .ofSeconds 253400832000 })
  := by
  have hpossible : Validity.Possible (.ofSeconds 253399622400)
      ⟨1728000 * nanosPerSecond, by decide⟩ := by
    unfold Validity.Possible
    decide
  obtain ⟨r, w, w₁, ca, hpolicy, hplace, hclock, hrun, hdrawn, hcalm⟩ := SignerRequest.exists_run
    ⟨⟨1728000 * nanosPerSecond, by decide⟩, ⟨864000 * nanosPerSecond, by decide⟩⟩ hpossible
  obtain ⟨⟨v, hv, hmade⟩, s, hlive, hca, hissued⟩ := SignerRequest.exists_live hrun hdrawn
  have hlate : ¬ Validity.InTime 253399622400 1728000 r.policy.refresh (.ofSeconds 253400832000) := by
    rw [hpolicy]
    norm_num [Validity.InTime, Instant.EarlierThan, Instant.inLeapSecond, Instant.ofSeconds,
      nanosPerSecond]
  have himpossible : ¬ Validity.Possible (.ofSeconds 253400832000) r.policy.lifetime := by
    rw [hpolicy]
    unfold Validity.Possible
    decide
  have hwatched : (NameSet.ofNames ["pki"]).contains r.ref.ns = true := by
    rw [hplace]
    decide
  have hrenews := SignerRequest.renews (r := { r with known := some s })
    (Secret.current_of_live hcalm hwatched hlive (.ofSeconds 253400832000)) hca hissued hmade
    (SignerRequest.utf8ByteSize_commonName_le_add r w.clock)
  rw [hclock] at hrenews
  have hseconds : (r.policy.lifetime.seconds : Int) = 1728000 := by
    rw [hpolicy]
    decide
  have hrefused := hrenews.refused
  simp only [hseconds] at hrefused
  obtain ⟨e, -, hstops⟩ := hrefused hlate himpossible
  exact ⟨r, w, w₁, ca, s, hpolicy, hclock, hrun, hdrawn, hlive, hca, hlate, e, hstops⟩

end CertKeeper
