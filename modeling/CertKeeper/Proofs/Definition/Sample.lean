import CertKeeper.Definition.Sample
import CertKeeper.Proofs.Manager.Restored

/-!
# The sample definitions

For whatever service they are made, the sample definitions are valid (`Definition.stages_sample`),
no two of their secrets are the same but for one purpose (`Definition.separate_sample`), and they
agree on what they share. A pass over them in a calm world without their objects goes through and
restores them, as long as their certificates can be issued (`Manager.exists_run_sample`).
-/

namespace CertKeeper

namespace Definition

variable {ns service : String} {d d' : Definition}

/-- The leaves of the sample definitions. -/
def sampleLeaves (ns service : String) : List Leaf :=
  [⟨⟨ns, service ++ "-server-cert"⟩, sampleLeafPolicy, .service service⟩,
   ⟨⟨ns, "client-cert"⟩, sampleLeafPolicy, .user ("system:serviceaccount:" ++ ns ++ ":" ++ service)⟩]

theorem checkRef_eq_ok {field : String} {ref : ResourceRef} (hns : ref.ns ≠ "")
    (hname : ref.name ≠ "") :
  checkRef field ref = .ok ()
  := by
  rw [checkRef, if_neg]
  simp [hns, hname]

/-- A definition with complete references and one identity has all stages. -/
theorem stages_eq_full {bundle : ResourceRef} {leaf : Leaf} (hns : d.signer.ns ≠ "")
    (hname : d.signer.name ≠ "") (hbundle : d.bundle = some bundle) (hbundleNs : bundle.ns ≠ "")
    (hbundleName : bundle.name ≠ "") (htarget : d.target = some leaf.secret)
    (htargetNs : leaf.secret.ns ≠ "") (htargetName : leaf.secret.name ≠ "")
    (hpolicy : d.targetPolicy = some leaf.policy)
    (hidentity : d.identity leaf.secret = .ok leaf.identity) :
  d.stages = .ok (.full bundle leaf)
  := by
  simp only [stages, checkRef_eq_ok hns hname, hbundle, checkRef_eq_ok hbundleNs hbundleName, htarget,
    checkRef_eq_ok htargetNs htargetName, hpolicy, hidentity]
  rfl

/-- A name is not empty after something was appended. -/
theorem append_ne_empty {s t : String} (ht : t ≠ "") :
  s ++ t ≠ ""
  := by
  intro h
  apply ht
  rw [String.append_eq_empty_iff] at h
  apply h.2

/-- A name is not what does not end in the same way. -/
theorem append_ne {s t u : String} (h : ¬ t.toList <:+ u.toList) :
  s ++ t ≠ u
  := by
  rintro rfl
  apply h
  rw [String.toList_append]
  apply List.suffix_append

/-- The sample definitions have all stages. -/
theorem stages_sample (hns : ns ≠ "") (hservice : service ≠ "") (hd : d ∈ sample ns service) :
  ∃ bundle, ∃ leaf ∈ sampleLeaves ns service, d.stages = .ok (.full bundle leaf)
  := by
  have hsuffix : ∀ {suffix}, suffix ≠ "" → service ++ suffix ≠ "" := append_ne_empty
  rw [sample, List.mem_cons, List.mem_singleton] at hd
  rcases hd with rfl | rfl
  · refine ⟨⟨ns, service ++ "-ca-bundle"⟩, ⟨⟨ns, service ++ "-server-cert"⟩, sampleLeafPolicy,
      .service service⟩, List.mem_cons_self, ?_⟩
    apply stages_eq_full hns (hsuffix (by decide)) rfl hns (hsuffix (by decide)) rfl hns
      (hsuffix (by decide)) rfl
    simp [identity, hservice]
  · have hsigner : "client-signer" ≠ "" := by decide
    have hbundle : "client-ca-bundle" ≠ "" := by decide
    have htarget : "client-cert" ≠ "" := by decide
    refine ⟨⟨ns, "client-ca-bundle"⟩, ⟨⟨ns, "client-cert"⟩, sampleLeafPolicy,
      .user ("system:serviceaccount:" ++ ns ++ ":" ++ service)⟩,
      List.mem_cons_of_mem _ List.mem_cons_self, ?_⟩
    apply stages_eq_full hns hsigner rfl hns hbundle rfl hns htarget rfl
    simp [identity, hservice]

/-- All objects of the sample definitions are in one namespace. -/
theorem namespaces_sample (hd : d ∈ sample ns service) :
  ∀ ns' ∈ d.namespaces, ns' = ns
  := by
  rw [sample, List.mem_cons, List.mem_singleton] at hd
  rcases hd with rfl | rfl <;> simp [namespaces]

/-- No target of the sample definitions is named twice, or is a signer. -/
theorem separate_sample (ns service : String) :
  Separate (sample ns service)
  := by
  have hclient : service ++ "-server-cert" ≠ "client-cert" := append_ne (by decide)
  have hsigner : service ++ "-server-cert" ≠ "client-signer" := append_ne (by decide)
  have hserver : service ++ "-signer" ≠ "client-cert" := append_ne (by decide)
  constructor
  · simp [sample, hclient, hclient.symm]
  · simp [sample, hsigner, hserver.symm]

end Definition

namespace Manager

open Definition

variable {ns service : String} {now : Instant} {w : World} {d : Definition}

/-- The sample definitions agree on their signers. -/
theorem agree_sample (ns service : String) :
  Agree (sample ns service)
  := by
  simp [Agree, sample]

/-- No two signers of the sample definitions share a bundle. -/
theorem exclusive_sample (ns service : String) (bundle : ResourceRef) :
  Exclusive (sample ns service) bundle
  := by
  have hclient : service ++ "-ca-bundle" = "client-ca-bundle" →
      service ++ "-signer" = "client-signer" := by
    intro h
    rw [show "client-ca-bundle" = "client" ++ "-ca-bundle" by decide, String.append_left_inj] at h
    subst h
    decide
  intro d hd d' hd' hbundle hbundle'
  have hsame := hbundle.trans hbundle'.symm
  rw [sample, List.mem_cons, List.mem_singleton] at hd hd'
  rcases hd with rfl | rfl <;> rcases hd' with rfl | rfl
  · rfl
  · simp only [Option.some.injEq, ResourceRef.mk.injEq, true_and] at hsame ⊢
    apply hclient hsame
  · simp only [Option.some.injEq, ResourceRef.mk.injEq, true_and] at hsame ⊢
    exact (hclient hsame.symm).symm
  · rfl

/-- The sample definitions have no object in common. -/
theorem alone_sample {d e : Definition} (hsample : Definition.sample "pki" "api" = [d, e]) {k : Kind}
    {ref : ResourceRef} (hnames : d.Names k ref) :
  ¬ e.Names k ref
  := by
  obtain ⟨rfl, hrest⟩ := List.cons.inj hsample
  obtain ⟨rfl, -⟩ := List.cons.inj hrest
  have hfirst : ref.name ∈ ["api-signer", "api-ca-bundle", "api-server-cert"] := by
    cases hnames with
    | signer => decide
    | bundle hbundle =>
      cases hbundle
      decide
    | target _ htarget =>
      cases htarget
      decide
  intro hnames'
  have hsecond : ref.name ∈ ["client-signer", "client-ca-bundle", "client-cert"] := by
    cases hnames' with
    | signer => decide
    | bundle hbundle =>
      cases hbundle
      decide
    | target _ htarget =>
      cases htarget
      decide
  have hnone : ∀ name ∈ ["api-signer", "api-ca-bundle", "api-server-cert"],
      name ∉ ["client-signer", "client-ca-bundle", "client-cert"] := by decide
  exact hnone _ hfirst hsecond

/-- The sample definitions can be planned where their namespace is watched. -/
theorem preflight_sample (hns : ns ≠ "") (hservice : service ≠ "") :
  ∃ plans, preflight (NameSet.ofNames [ns]) (sample ns service) = .ok plans
  := by
  apply exists_preflight
  intro d hd
  obtain ⟨bundle, leaf, -, hstages⟩ := stages_sample hns hservice hd
  refine ⟨⟨_, hstages⟩, ?_⟩
  intro ns' hns'
  rw [namespaces_sample hd ns' hns']
  simp [NameSet.ofNames, Dict.ofList, Dict.contains]

/-- The leaves of the sample definitions can be issued. -/
theorem leafIssuable_sample {leaf : Leaf} (hns : IssuerName.isAscii ns)
    (hservice : IssuerName.isAscii service)
    (hsize : ns.utf8ByteSize + service.utf8ByteSize < 500000000000000000)
    (hpossible : Validity.Possible now sampleLeafPolicy.lifetime)
    (hleaf : leaf ∈ sampleLeaves ns service) :
  LeafIssuable now leaf
  := by
  have hpolicy : sampleLeafPolicy.Sensible := ⟨by decide, by decide⟩
  rw [sampleLeaves, List.mem_cons, List.mem_singleton] at hleaf
  rcases hleaf with rfl | rfl
  · refine ⟨hpolicy, hpossible, ?_, ?_, ?_⟩
    · intro name hname
      cases hname
      exact ⟨hservice, hns⟩
    · unfold Moderate
      simp only
      omega
    · unfold Moderate
      omega
  · refine ⟨hpolicy, hpossible, ?_, ?_, ?_⟩
    · intro name hname
      cases hname
    · unfold Moderate
      simp only
      omega
    · unfold Moderate
      have haccount : "system:serviceaccount:".utf8ByteSize = 22 := by decide
      have hcolon : ":".utf8ByteSize = 1 := by decide
      simp only [String.utf8ByteSize_append]
      omega

/-- The certificates of the sample definitions can be issued, if they are valid to the end. -/
theorem issuable_sample (hns : ns ≠ "") (hservice : service ≠ "") (hascii : IssuerName.isAscii ns)
    (hascii' : IssuerName.isAscii service)
    (hsize : ns.utf8ByteSize + service.utf8ByteSize < 500000000000000000)
    (hpossible : Validity.Possible now sampleSignerPolicy.lifetime) :
  ∀ d ∈ sample ns service, Issuable now d
  := by
  intro d hd
  obtain ⟨bundle, leaf, hleaf, hstages⟩ := stages_sample hns hservice hd
  have hshort : sampleLeafPolicy.lifetime.seconds ≤ sampleSignerPolicy.lifetime.seconds := by decide
  have hleafPossible : Validity.Possible now sampleLeafPolicy.lifetime :=
    ⟨hpossible.1, by have := hpossible.2; omega⟩
  have hpolicy : sampleSignerPolicy.Sensible := ⟨by decide, by decide⟩
  have hsigner : d.signerPolicy = sampleSignerPolicy ∧ d.signer.ns = ns
      ∧ (d.signer.name = service ++ "-signer" ∨ d.signer.name = "client-signer") := by
    rw [sample, List.mem_cons, List.mem_singleton] at hd
    rcases hd with rfl | rfl <;> simp
  obtain ⟨hsame, hplace, hname⟩ := hsigner
  constructor
  · rw [hsame]
    apply hpolicy
  · rw [hsame]
    apply hpossible
  · have hsuffix : "-signer".utf8ByteSize = 7 := by decide
    have hclient : "client-signer".utf8ByteSize = 13 := by decide
    unfold Moderate
    rw [hplace]
    rcases hname with hname | hname
    · rw [hname, String.utf8ByteSize_append]
      omega
    · rw [hname]
      omega
  · intro bundle' leaf' hstages'
    cases hstages.symm.trans hstages'
    apply leafIssuable_sample hascii hascii' hsize hleafPossible hleaf

/-- A pass over the sample definitions goes through in a calm world without their objects, and
restores them. -/
theorem leads_sync_sample (hns : ns ≠ "") (hservice : service ≠ "")
    (hissuable : ∀ d ∈ sample ns service, Issuable w.clock d) (hw : w.Calm (NameSet.ofNames [ns]))
    (hclock : Shown w.clock)
    (hnone : ∀ k ref, Named (sample ns service) k ref → w.store.find? k ref = none) :
  (sync (NameSet.ofNames [ns]) (sample ns service)).Leads
    (fun _ w' => w'.Calm (NameSet.ofNames [ns]) ∧ w'.clock = w.clock
      ∧ ∀ d ∈ sample ns service, ∃ ca, Restored w' d ca)
    (fun _ _ => False) w
  := by
  obtain ⟨plans, hplans⟩ := preflight_sample hns hservice
  have hc : Custody (sample ns service) Shown (History.start w.store w.clock) := .start hclock hnone
  have hcontinues : (History.start w.store w.clock).Continues (NameSet.ofNames [ns]) w :=
    ⟨hw, rfl, rfl⟩
  have hrestores := leads_sync_restored hplans (agree_sample ns service) (separate_sample ns service)
    hissuable hc hcontinues
  have hadvances := leads_sync (agree_sample ns service) (separate_sample ns service)
    (fun d hd => (hissuable d hd).sensible) hw (hc.formed hcontinues)
  apply (hrestores.and hadvances).mono
  · rintro _ w' ⟨hrestored, plans', -, hgone, -⟩
    exact ⟨hgone.calm, hgone.clock, hrestored⟩
  · intro e w' he
    apply he

/-- In an empty store a pass over the sample definitions goes through. It restores them, and leaves
their objects in custody. -/
theorem exists_custody_sample (ns service : String) (hns : ns ≠ "") (hservice : service ≠ "")
    (hclock : Shown now) (hissuable : ∀ d ∈ sample ns service, Issuable now d) :
  ∃ h w', World.run (sync (NameSet.ofNames [ns]) (sample ns service))
      { store := Store.new [ns], clock := now } = (.ok (), w')
    ∧ Custody (sample ns service) Shown h ∧ h.Continues (NameSet.ofNames [ns]) w' ∧ w'.clock = now
    ∧ ∀ d ∈ sample ns service, ∃ ca, Restored w' d ca
  := by
  obtain ⟨plans, hplans⟩ := preflight_sample hns hservice
  have hsep := separate_sample ns service
  have hc : Custody (sample ns service) Shown (History.start (Store.new [ns]) now) :=
    .start hclock (fun k ref _ => Store.find?_new [ns] k ref)
  have hcontinues : (History.start (Store.new [ns]) now).Continues (NameSet.ofNames [ns])
      { store := Store.new [ns], clock := now } := ⟨World.calm_new [ns] now, rfl, rfl⟩
  obtain ⟨_, w', hrun, ⟨h, hc', hcontinues', hclock'⟩, hrestored⟩ :=
    ((goes_sync hplans hsep hissuable hc hcontinues).and
      (leads_sync_restored hplans (agree_sample ns service) hsep hissuable hc hcontinues)).exists_run
  exact ⟨h, w', hrun, hc', hcontinues', hclock', hrestored⟩

/-- In an empty store a pass over the sample definitions goes through, and restores them. -/
theorem exists_run_sample (ns service : String) (hns : ns ≠ "") (hservice : service ≠ "")
    (hclock : Shown now) (hissuable : ∀ d ∈ sample ns service, Issuable now d) :
  ∃ w', World.run (sync (NameSet.ofNames [ns]) (sample ns service))
      { store := Store.new [ns], clock := now } = (.ok (), w')
    ∧ w'.Calm (NameSet.ofNames [ns]) ∧ w'.clock = now
    ∧ ∀ d ∈ sample ns service, ∃ ca, Restored w' d ca
  := by
  obtain ⟨h, w', hrun, -, hcontinues, hclock', hrestored⟩ :=
    exists_custody_sample ns service hns hservice hclock hissuable
  exact ⟨w', hrun, hcontinues.calm, hclock', hrestored⟩

/-- The pass over the sample definitions in an empty store is met in a history. -/
theorem exists_met_sample (ns service : String) (shows : Instant → Prop) (hns : ns ≠ "")
    (hservice : service ≠ "") (hclock : Shown now)
    (hissuable : ∀ d ∈ sample ns service, Issuable now d) :
  ∃ h w', Program.Met (History.step (apart (sample ns service) shows))
      (fun p => p = (sync (NameSet.ofNames [ns]) (sample ns service)).run)
      (History.start (Store.new [ns]) now) (.done (.ok ())) h
    ∧ h.Continues (NameSet.ofNames [ns]) w' ∧ w'.clock = now
    ∧ ∀ d ∈ sample ns service, ∃ ca, Restored w' d ca
  := by
  obtain ⟨plans, hplans⟩ := preflight_sample hns hservice
  obtain ⟨w', hrun, -, hclock', hrestored⟩ :=
    exists_run_sample ns service hns hservice hclock hissuable
  have hcoherent : (History.start (Store.new [ns]) now).Coherent (Named (sample ns service)) :=
    History.coherent_start (fun k ref _ => Store.find?_new [ns] k ref) now
  have hcontinues : (History.start (Store.new [ns]) now).Continues (NameSet.ofNames [ns])
      { store := Store.new [ns], clock := now } := ⟨World.calm_new [ns] now, rfl, rfl⟩
  have hwatched : ∀ k ref, Named (sample ns service) k ref →
      (NameSet.ofNames [ns]).contains ref.ns :=
    fun k ref => Named.watched hplans
  have hbegun : Program.Met (History.step (apart (sample ns service) shows))
      (fun p => p = (sync (NameSet.ofNames [ns]) (sample ns service)).run)
      (History.start (Store.new [ns]) now) (sync (NameSet.ofNames [ns]) (sample ns service)).run
      (History.start (Store.new [ns]) now) := .start rfl
  obtain ⟨h, hmet, hcontinues'⟩ := hcontinues.met hcoherent hwatched hbegun
  rw [show Program.run World.handle _ _ = _ from hrun] at hmet hcontinues'
  exact ⟨h, w', hmet, hcontinues', hclock', hrestored⟩

/-- The certificates of the sample definitions for a service can be issued from 1970 on for a long
time. -/
theorem issuable_sample_api (n : Nat) (hn : n < 10000000000) :
  ∀ d ∈ sample "pki" "api", Issuable (Instant.ofSeconds n) d
  := by
  have hlifetime : sampleSignerPolicy.lifetime.seconds = 2592000 := by decide
  have hsize : "pki".utf8ByteSize + "api".utf8ByteSize < 500000000000000000 := by decide
  apply issuable_sample (by decide) (by decide) (by decide) (by decide) hsize
  apply Validity.possible_ofSeconds
  omega

end Manager

end CertKeeper
