import CertKeeper.Proofs.Manager.Kept
import CertKeeper.Proofs.Manager.Segment

/-!
# Stages that have to reissue

Where everything is settled, a stage with another policy records the policy, and then replaces the
certificate that counts as expired from then on (`Manager.leads_signerStage_other`,
`Manager.leads_leafStage_other`). Once the certificate of the signer is another one, the stages for the
bundle and for the leaf have one write to make each (`Manager.leads_bundleStage_replaced`,
`Manager.leads_leafStage_replaced`). `World.Logs` counts the writes of all of them.
-/

namespace CertKeeper

namespace World

/-- In the world that another one has become, some more writes are logged, and the objects that
these are not about are as they were. -/
structure Logs (watched : NameSet) (w : World) (log : List Write) (w' : World) : Prop where
  calm : w'.Calm watched
  clock : w'.clock = w.clock
  writes : w'.store.writes = w.store.writes ++ log
  others : ∀ {k ref}, (∀ x ∈ log, ¬ (k = x.kind ∧ ref = x.ref)) →
    w'.store.find? k ref = w.store.find? k ref

variable {watched : NameSet} {w w' w'' : World} {k : Kind} {ref : ResourceRef} {o : Object k}
variable {verb : WriteVerb} {log log' : List Write}

theorem Calm.logs (hw : w.Calm watched) :
  w.Logs watched [] w
  := ⟨hw, rfl, by rw [List.append_nil], fun _ => rfl⟩

theorem Wrote.logs (h : w.Wrote watched verb ref o w') :
  w.Logs watched [⟨verb, k, ref⟩] w'
  := ⟨h.calm, h.clock, h.writes, fun hother => h.find?_of_ne (hother _ List.mem_cons_self)⟩

theorem Logs.trans (h : w.Logs watched log w') (h' : w'.Logs watched log' w'') :
  w.Logs watched (log ++ log') w''
  := by
  refine ⟨h'.calm, h'.clock.trans h.clock, ?_, ?_⟩
  · rw [h'.writes, h.writes, List.append_assoc]
  · intro k ref hother
    rw [h'.others (fun x hx => hother x (List.mem_append_right _ hx)),
      h.others (fun x hx => hother x (List.mem_append_left _ hx))]

end World

namespace Manager

variable {watched : NameSet} {w w' : World} {ref bundle : ResourceRef} {d : Definition} {leaf : Leaf}
variable {ca ca' : Authority} {policy : Policy} {stop : Stop → World → Prop}

/-! ### Another policy -/

/-- Another policy has been recorded on a secret, the certificate of which is due since. -/
structure Remarked (watched : NameSet) (ref : ResourceRef) (policy : Policy) (w : World) (marked : Secret)
    (w' : World) : Prop where
  logs : w.Logs watched [⟨.update, .secret, ref⟩] w'
  keys : w'.keys = w.keys
  prepared : Prepared ref policy marked w'
  isAt : marked.IsAt ref
  due : ∀ refresh, ∃ reason, marked.metadata.due? refresh w'.clock = .ok (some reason)

/-- Preparing a secret with the record of another policy is an update of it. -/
theorem leads_prepareSecret_other {former : Policy} {s : Secret} (hw : w.Calm watched)
    (hcivil : w.clock.Civil) (hwatched : watched.contains ref.ns) (hprepared : Prepared ref former s w)
    (hat : s.IsAt ref) (hother : policy ≠ former) :
  (prepareSecret watched ref policy).Leads (Remarked watched ref policy w) stop w
  := by
  have hlive := hprepared.live
  rw [prepareSecret_eq policy hwatched]
  apply Procedure.safe_bind
  apply Procedure.safe_bind
  apply Procedure.leads_cached hw hwatched
  rw [hlive]
  apply Procedure.safe_pure
  apply Procedure.safe_bind
  apply Procedure.leads_clock
  cases hrecord : s.withFingerprint? policy.fingerprint w.clock with
  | none =>
    have hrecorded := (Secret.withFingerprint?_eq_none _ _).mp hrecord
    rw [hprepared.recorded] at hrecorded
    exact absurd (Policy.fingerprint_injective (Option.some.inj hrecorded)).symm hother
  | some updated =>
    obtain ⟨hpolicy, -, hname, hversion, -⟩ := Secret.withFingerprint?_eq_some hrecord
    have hname' : updated.name = ref.name := hname.trans hat.2
    apply Procedure.leads_update hw hwatched hname' hlive hversion.symm
    intro w' hwrote hkeys
    refine ⟨hwrote.logs, hkeys, ⟨hwrote.find?_self, hpolicy⟩, hwrote.isAt hname', ?_⟩
    intro refresh
    rw [hwrote.clock]
    apply Secret.due_of_withFingerprint? hrecord hcivil (by simp) refresh

/-- The new key of a world does not belong to the certificate of an authority. -/
def NewKeyFor (w : World) (ca : Authority) : Prop :=
  Authority.keyMatches? ca.certPem (KeyPair.generate w.keys).pem ≠ some true

/-- A signer that is settled, but for another policy, is replaced by two updates. -/
theorem leads_signerStage_other (hw : w.Calm watched) (hcivil : w.clock.Civil)
    (hwatched : watched.contains d.signer.ns)
    (hformed : ∀ s : Secret, w.store.find? .secret d.signer = some s → s.IsAt d.signer)
    (hsettled : SignerSettled w d ca) (hother : policy ≠ d.signerPolicy) (hkey : NewKeyFor w ca) :
  (signerStage watched { d with signerPolicy := policy }).Leads
    (fun ca' w' => w.Logs watched [⟨.update, .secret, d.signer⟩, ⟨.update, .secret, d.signer⟩] w'
      ∧ ca'.Loaded ∧ ca'.certPem ≠ ca.certPem
      ∧ ∃ s : Secret, w'.store.find? .secret d.signer = some s ∧ s.IssuedFor policy.lifetime)
    (fun _ _ => True) w
  := by
  obtain ⟨s, hprepared, -⟩ := hsettled
  apply (leads_prepareSecret_other hw hcivil hwatched hprepared (hformed s hprepared.live) hother).bind
  intro marked w₁ hmarked
  rw [SignerRequest.ensure_eq rfl]
  apply Procedure.safe_bind
  apply Procedure.leads_clock
  apply Procedure.safe_bind
  apply Procedure.safe_ofComputation
  · intro checked hchecked
    cases checked with
    | ok ca' =>
      obtain ⟨reason, hdue⟩ := hmarked.due policy.refresh
      cases hdue.symm.trans (SignerRequest.check_eq_ok_ok.mp hchecked).2
    | error reason =>
      apply Procedure.safe_mono (leads_replaceSigner (r := ⟨d.signer, policy, some marked⟩)
        hmarked.logs.calm hwatched hmarked.prepared.live hmarked.isAt.2 w₁.clock reason
        (fun _ _ _ => trivial))
      rintro ca' w₂ ⟨v, hv, hca', hwrote⟩
      obtain ⟨hsound, -⟩ := Authority.generate_eq_ok hv hca'
      refine ⟨hmarked.logs.trans hwrote.logs, hsound.loaded, ?_, _, hwrote.find?_self, ?_⟩
      · intro hsame
        apply hkey
        rw [← hsame, ← hmarked.keys, ← (Authority.ofPem_eq_ok hca').2.1]
        apply hsound.keyMatches?
      · apply (Secret.issuedFor_withKeyPair marked hv hca').stamped
  · intro e _
    trivial

/-- A leaf that is settled, but for another policy, is replaced by two updates. -/
theorem leads_leafStage_other (trusted : List TrustedCertificate) (hw : w.Calm watched)
    (hcivil : w.clock.Civil) (hwatched : watched.contains leaf.secret.ns)
    (hformed : ∀ s : Secret, w.store.find? .secret leaf.secret = some s → s.IsAt leaf.secret)
    (hsettled : LeafSettled w leaf ca) (hother : policy ≠ leaf.policy) :
  (leafStage watched { leaf with policy := policy } ca trusted).Leads
    (fun _ w' => w.Logs watched [⟨.update, .secret, leaf.secret⟩, ⟨.update, .secret, leaf.secret⟩] w'
      ∧ ∃ s : Secret, w'.store.find? .secret leaf.secret = some s ∧ s.IssuedFor policy.lifetime)
    (fun _ _ => True) w
  := by
  obtain ⟨s, hprepared, -⟩ := hsettled
  apply (leads_prepareSecret_other hw hcivil hwatched hprepared (hformed s hprepared.live) hother).bind
  intro marked w₁ hmarked
  rw [LeafStage.ensure_eq rfl]
  apply Procedure.safe_bind
  apply Procedure.leads_clock
  apply Procedure.safe_bind
  apply Procedure.safe_ofComputation
  · intro found hfound
    cases found with
    | none =>
      obtain ⟨reason, hdue⟩ := hmarked.due policy.refresh
      cases hdue.symm.trans (LeafStage.of_reason?_eq_none hfound).2
    | some reason =>
      apply Procedure.safe_mono (leads_replaceLeaf hmarked.logs.calm hwatched hmarked.prepared.live
        hmarked.isAt.2 trusted reason (fun _ _ _ => trivial))
      rintro _ w₂ ⟨issued, hsign, hwrote⟩
      refine ⟨hmarked.logs.trans hwrote.logs, _, hwrote.find?_self, ?_⟩
      apply (Secret.issuedFor_filled marked hsign).stamped
  · intro e _
    trivial

/-! ### Another signer -/

/-- Certificates that begin with different ones have different texts. -/
theorem encodeBundle_ne {cert cert' : TrustedCertificate} {rest rest' : List TrustedCertificate}
    (hgenuine : ∀ c ∈ cert :: rest, c.Genuine) (hgenuine' : ∀ c ∈ cert' :: rest', c.Genuine)
    (hne : cert.pem ≠ cert'.pem) :
  encodeBundle (cert :: rest) ≠ encodeBundle (cert' :: rest')
  := by
  intro hsame
  have hparse := parseCertificates_encodeBundle _ hgenuine
  rw [hsame, parseCertificates_encodeBundle _ hgenuine'] at hparse
  cases hparse
  exact hne rfl

/-- A bundle that is settled for an authority is updated once for another one, and still lists the
former. -/
theorem leads_bundleStage_replaced {certs : List TrustedCertificate} (hw : w.Calm watched)
    (hwatched : watched.contains bundle.ns)
    (hformed : ∀ m : ConfigMap, w.store.find? .configMap bundle = some m → m.IsAt bundle)
    (hca : ca.Loaded) (hsettled : BundleSettled w bundle ca certs) (hca' : ca'.Loaded)
    (hne : ca'.certPem ≠ ca.certPem) :
  (bundleStage watched bundle ca').Leads
    (fun _ w' => w.Logs watched [⟨.update, .configMap, bundle⟩] w'
      ∧ (ca.info.isExpired w.clock = false →
        ∃ m, w'.store.find? .configMap bundle = some m ∧ ca.trusted ∈ Bundle.listed (some m)))
    stop w
  := by
  obtain ⟨m, rest, hfind, hlisted, rfl, hgenuine⟩ := hsettled.listed hca.genuine
  obtain ⟨m', hfind', -, htext⟩ := hsettled
  obtain rfl := Option.some.inj (hfind.symm.trans hfind')
  obtain ⟨certs', hcerts'⟩ :
      ∃ certs', certs' = Bundle.merge w.clock ca'.trusted (Bundle.listed (some m)) := ⟨_, rfl⟩
  have hchanged : encodeBundle certs' ≠ encodeBundle (ca.trusted :: rest) := by
    have hgenuine' : ∀ cert ∈ certs', cert.Genuine := by
      intro cert hcert
      rw [hcerts'] at hcert
      apply Bundle.genuine_of_mem_merge hca'.genuine hcert
    rw [Bundle.merge_eq] at hcerts'
    rw [hcerts'] at hgenuine' ⊢
    apply encodeBundle_ne hgenuine' hgenuine hne
  have hname : (Bundle.rewritten bundle (some m) certs').name = bundle.name := (hformed m hfind).2
  rw [bundleStage_eq hwatched, Bundle.ensure_eq]
  apply Procedure.safe_bind
  apply Procedure.safe_bind
  apply Procedure.leads_cached hw hwatched
  rw [hfind]
  apply Procedure.safe_pure
  apply Procedure.safe_tryCatch
  apply Procedure.safe_bind
  apply Procedure.leads_clock
  simp only [Bundle.listed_eq, ← hcerts']
  rw [if_neg]
  · apply Procedure.safe_bind
    apply Procedure.leads_update hw hwatched hname hfind rfl
    intro w₁ hwrote _
    apply Procedure.safe_bind
    apply Procedure.leads_publish hwrote.calm
    intro w₂ hrests
    apply Procedure.safe_pure
    refine ⟨(hwrote.rests hrests).logs, ?_⟩
    intro hunexpired
    refine ⟨_, (hwrote.rests hrests).find?_self, ?_⟩
    rw [hcerts', Bundle.listed_stamped hca'.genuine]
    apply Bundle.mem_merge hca'.genuine (fun cert => Bundle.genuine_of_mem_listed) _ hunexpired
    rw [hlisted]
    apply List.mem_cons_self
  · rw [Option.getD_some, htext]
    rintro ⟨-, hsame⟩
    exact hchanged hsame

/-- A leaf that is settled for an authority is updated once for another one. -/
theorem leads_leafStage_replaced (trusted : List TrustedCertificate) (hw : w.Calm watched)
    (hwatched : watched.contains leaf.secret.ns)
    (hformed : ∀ s : Secret, w.store.find? .secret leaf.secret = some s → s.IsAt leaf.secret)
    (hsettled : LeafSettled w leaf ca) (hne : ca'.certPem ≠ ca.certPem) :
  (leafStage watched leaf ca' trusted).Leads
    (fun _ w' => w.Logs watched [⟨.update, .secret, leaf.secret⟩] w') (fun _ _ => True) w
  := by
  obtain ⟨s, hprepared, hreason⟩ := hsettled
  obtain ⟨hserves, -⟩ := LeafStage.of_reason?_eq_none hreason
  obtain ⟨-, ⟨first, hfirst, hpem⟩, -⟩ := LeafStage.of_mismatch?_eq_none hserves
  apply (leads_prepareSecret_settled hw hwatched hprepared).bind
  rintro _ _ ⟨rfl, rfl⟩
  rw [LeafStage.ensure_eq rfl]
  apply Procedure.safe_bind
  apply Procedure.leads_clock
  apply Procedure.safe_bind
  apply Procedure.safe_ofComputation
  · intro found hfound
    cases found with
    | none =>
      obtain ⟨hmismatch, -⟩ := LeafStage.of_reason?_eq_none hfound
      exact absurd ((LeafStage.pem_of_mismatch?_eq_none hmismatch hfirst).symm.trans hpem) hne
    | some reason =>
      apply Procedure.safe_mono (leads_replaceLeaf hw hwatched hprepared.live
        (hformed _ hprepared.live).2 trusted reason (fun _ _ _ => trivial))
      rintro _ w₁ ⟨issued, -, hwrote⟩
      apply hwrote.logs
  · intro e _
    trivial

end Manager

end CertKeeper
