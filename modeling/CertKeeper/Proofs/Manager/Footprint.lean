import CertKeeper.Proofs.Definition.Sample
import CertKeeper.Proofs.Manager.Work

/-!
# What passes leave alone

While other writers create and update objects between any two calls of a pass, each write of the
pass is to an object that a definition names, and it changes nothing of the version that was live
immediately before but what the stages own (`Manager.writes_own_entries`): a few annotations, and
the entries of key pairs and bundles. A stage may work on a copy as stale as it wants. It writes with
the version of the copy, so in a coherent history the copy is what it replaces.
-/

namespace CertKeeper

/-! ### What an edit may change -/

/-- The annotations of an object that passes change. -/
def Kind.ownAnnotations : Kind → List String
  | .configMap => []
  | .secret => [AnnotationKey.policy, AnnotationKey.notBefore, AnnotationKey.notAfter,
      AnnotationKey.issuer, AnnotationKey.hostnames]

/-- The keys of an object's data that passes change. -/
def Kind.ownEntries : Kind → List String
  | .configMap => [EntryKey.bundle]
  | .secret => [EntryKey.certificate, EntryKey.privateKey, EntryKey.authority]

/-- Contents that differ at most in the entries that passes change. -/
def Content.Alike : (k : Kind) → Content k → Content k → Prop
  | .configMap, c, c' =>
    ∀ key ∉ Kind.configMap.ownEntries,
      c'.data.bind (fun data => data.get? key) = c.data.bind (fun data => data.get? key)
  | .secret, c, c' =>
    (∀ key ∉ Kind.secret.ownEntries,
      c'.data.bind (fun data => data.get? key) = c.data.bind (fun data => data.get? key))
      ∧ c'.stringData = c.stringData ∧ c'.type = c.type

/-- An object differs from another one at most in its version and in what passes change. -/
structure Object.Edited {k : Kind} (o o' : Object k) : Prop where
  name : o'.metadata.name = o.metadata.name
  ns : o'.metadata.ns = o.metadata.ns
  labels : o'.metadata.labels = o.metadata.labels
  annotations : ∀ name ∉ k.ownAnnotations, o'.annotationAt? name = o.annotationAt? name
  content : Content.Alike k o.content o'.content

/-- A new object of a kind with nothing but its place. -/
def Object.blank : (k : Kind) → ResourceRef → Object k
  | .configMap => ConfigMap.new
  | .secret => Secret.new

namespace Object.Edited

variable {k : Kind} {o o' o'' : Object k}

theorem content_refl (c : Content k) :
  Content.Alike k c c
  := by
  cases k with
  | configMap => exact fun _ _ => rfl
  | secret => exact ⟨fun _ _ => rfl, rfl, rfl⟩

theorem refl (o : Object k) :
  o.Edited o
  := ⟨rfl, rfl, rfl, fun _ _ => rfl, content_refl _⟩

theorem trans (h : o.Edited o') (h' : o'.Edited o'') :
  o.Edited o''
  := by
  constructor
  · rw [h'.name, h.name]
  · rw [h'.ns, h.ns]
  · rw [h'.labels, h.labels]
  · intro name hname
    rw [h'.annotations name hname, h.annotations name hname]
  · have hc := h.content
    have hc' := h'.content
    cases k with
    | configMap =>
      intro key hkey
      rw [hc' key hkey, hc key hkey]
    | secret =>
      refine ⟨?_, hc'.2.1.trans hc.2.1, hc'.2.2.trans hc.2.2⟩
      intro key hkey
      rw [hc'.1 key hkey, hc.1 key hkey]

/-- Setting an annotation that passes change is an edit. -/
theorem annotate (o : Object k) {name : String} (value : String) (hname : name ∈ k.ownAnnotations) :
  o.Edited (o.annotate name value)
  := by
  refine ⟨rfl, rfl, rfl, ?_, content_refl _⟩
  intro name' hname'
  rw [annotationAt?_annotate, if_neg]
  rintro rfl
  exact hname' hname

/-- The version that the store gives to an object is an edit. -/
theorem stamped (store : Store) {ns : String} (hns : o.metadata.ns = some ns) :
  o.Edited (store.stamped ns o)
  := ⟨rfl, hns.symm, rfl, fun _ _ => rfl, content_refl _⟩

end Object.Edited

namespace Secret

variable {s s' : Secret}

/-- Setting an entry that passes change is an edit. -/
theorem edited_withText (s : Secret) {key : String} (value : String)
    (hkey : key ∈ Kind.secret.ownEntries) :
  Object.Edited s (s.withText key value)
  := by
  refine ⟨rfl, rfl, rfl, fun _ _ => rfl, ?_, rfl, rfl⟩
  intro key' hkey'
  have hne : key' ≠ key := by
    rintro rfl
    exact hkey' hkey
  simp only [withText, Option.bind_some]
  rw [Dict.get?_insert_of_ne _ _ hne]
  cases s.content.data <;> rfl

theorem edited_withFingerprint? {desired : String} {now : Instant}
    (h : s.withFingerprint? desired now = some s') :
  Object.Edited s s'
  := by
  unfold withFingerprint? at h
  dsimp only at h
  split at h
  · cases h
  · obtain rfl := Option.some.inj h
    refine Object.Edited.trans ?_ (Object.Edited.annotate _ _ (by decide))
    split
    · apply Object.Edited.annotate _ _ (by decide)
    · apply Object.Edited.refl

theorem edited_withKeyPair (s : Secret) (certPem keyPem : String) (info : CertificateInfo) :
  Object.Edited s (s.withKeyPair certPem keyPem info)
  := by
  have hcert := edited_withText s certPem (show EntryKey.certificate ∈ _ by decide)
  have hkey := edited_withText (s.withText EntryKey.certificate certPem) keyPem
    (show EntryKey.privateKey ∈ _ by decide)
  apply (hcert.trans hkey).trans
  rw [withKeyPair, withValidity]
  refine Object.Edited.trans ?_ (Object.Edited.annotate _ _ (by decide))
  apply Object.Edited.annotate _ _ (by decide)

theorem edited_filled (r : LeafStage) (s : Secret) (ca : Authority) (trusted : List TrustedCertificate)
    (issued : IssuedCertificate) :
  Object.Edited s (r.filled s ca trusted issued)
  := by
  have hpair := edited_withKeyPair s issued.certPem issued.keyPem issued.info
  have hauthority := edited_withText (s.withKeyPair issued.certPem issued.keyPem issued.info)
    (encodeBundle trusted) (show EntryKey.authority ∈ _ by decide)
  have hattributed : Object.Edited s (LeafStage.attributed s ca trusted issued) := by
    apply (hpair.trans hauthority).trans
    apply Object.Edited.annotate _ _ (by decide)
  rw [LeafStage.filled_eq]
  cases LeafStage.hostnames? r.request with
  | none => apply hattributed
  | some hostnames =>
    apply hattributed.trans
    apply Object.Edited.annotate _ _ (by decide)

end Secret

theorem ConfigMap.edited_withText (m : ConfigMap) {key : String} (value : String)
    (hkey : key ∈ Kind.configMap.ownEntries) :
  Object.Edited m (m.withText key value)
  := by
  refine ⟨rfl, rfl, rfl, fun _ _ => rfl, ?_⟩
  intro key' hkey'
  have hne : key' ≠ key := by
    rintro rfl
    exact hkey' hkey
  simp only [withText, Option.bind_some]
  rw [Dict.get?_insert_of_ne _ _ hne]
  cases m.content.data <;> rfl

/-! ### Passes among other writers -/

namespace Manager

variable {definitions : List Definition} {watched : NameSet} {h h' : History} {ref : ResourceRef}
variable {o : Secret}

/-- What goes on outside of passes, if others may write whatever there is and at any time. -/
def crowded : Outside := ⟨fun _ _ => True, fun _ _ => True, fun _ => True⟩

/-- All versions of objects carry a version that the store gave them. -/
def Versioned (h : History) : Prop :=
  ∀ (k : Kind) (o : Object k), (⟨k, o⟩ : Sigma Object) ∈ h.past → o.version.isSome

theorem Versioned.recorded {k : Kind} (hv : Versioned h) (s : Store) (ns : String) (o : Object k) :
  Versioned (h.recorded s (h.store.stamped ns o))
  := by
  intro k' o' hmem
  rcases List.mem_cons.mp hmem with hsame | hmem
  · cases hsame
    rfl
  · apply hv k' o' hmem

theorem Versioned.drift {outside : Outside} (hv : Versioned h) (hd : h.Drift outside h') :
  Versioned h'
  := by
  induction hd with
  | none => apply hv
  | tick _ _ _ ih => apply ih
  | create _ _ hcreate ih =>
    obtain ⟨-, rfl, -⟩ := Store.create_eq_ok hcreate
    apply ih.recorded
  | update _ _ hupdate ih =>
    obtain ⟨-, -, -, rfl, -⟩ := Store.update_eq_ok hupdate
    apply ih.recorded

/-- A write is to an object that a definition names, and an edit of what was there. -/
def WritesOwn (definitions : List Definition) (c : Commit) : Prop :=
  ∃ ref, Definition.Named definitions c.kind ref ∧ c.stored.IsAt ref
    ∧ (c.replaced.getD (Object.blank c.kind ref)).Edited c.stored

/-- Copies tell what they replace, and all writes up to now are edits. -/
structure AllOwn (definitions : List Definition) (h : History) : Prop where
  coherent : h.Coherent (fun _ _ => True)
  versioned : Versioned h
  commits : ∀ c ∈ h.commits, WritesOwn definitions c

theorem AllOwn.drift (ho : AllOwn definitions h) (hd : h.Drift crowded h') :
  AllOwn definitions h'
  := by
  refine ⟨ho.coherent.drift hd, ho.versioned.drift hd, ?_⟩
  rw [hd.commits]
  apply ho.commits

theorem AllOwn.wrote {k : Kind} {o : Object k} (ho : AllOwn definitions h)
    (hnamed : Definition.Named definitions k ref) (hw : h.Wrote ref o h')
    (hedited : ((h.store.find? k ref).getD (Object.blank k ref)).Edited (h.store.stamped ref.ns o)) :
  AllOwn definitions h'
  := by
  refine ⟨ho.coherent.wrote hw, ?_, ?_⟩
  · obtain ⟨-, verb, rfl⟩ := hw
    apply ho.versioned.recorded (h.store.commit verb ref.ns o).2
  · intro c hc
    rw [hw.commits] at hc
    rcases List.mem_append.mp hc with hc | hc
    · apply ho.commits c hc
    · obtain rfl := List.mem_singleton.mp hc
      exact ⟨ref, hnamed, hw.isAt, hedited⟩

/-- A copy with the version of the live secret is the live secret. -/
theorem AllOwn.find?_eq {copy : Secret} (ho : AllOwn definitions h) (hcopy : IsVersion ref copy h)
    (hreplaces : Replaces ref copy h) :
  h.store.find? .secret ref = some copy
  := by
  obtain ⟨live, hlive, hversion⟩ := hreplaces
  rw [hlive, ho.coherent.eq_of_version trivial hcopy.2 hcopy.1 hlive hversion]

/-- What a pass stores in a secret is an edit of the live one. -/
theorem Work.edited {shows : Instant → Prop} (ho : AllOwn definitions h)
    (hwork : Work definitions shows h ref o) :
  ((h.store.find? .secret ref).getD (Object.blank .secret ref)).Edited (h.store.stamped ref.ns o)
  := by
  have hedited : ∀ {copy o : Secret}, IsVersion ref copy h → Replaces ref copy h →
      Object.Edited copy o →
      ((h.store.find? .secret ref).getD (Object.blank .secret ref)).Edited
        (h.store.stamped ref.ns o) := by
    intro copy o hcopy hreplaces hedit
    rw [ho.find?_eq hcopy hreplaces]
    apply hedit.trans
    apply Object.Edited.stamped
    rw [hedit.ns, hcopy.2.1]
  cases hwork with
  | created hnone =>
    rw [hnone]
    exact ⟨rfl, rfl, rfl, fun _ _ => rfl, Object.Edited.content_refl _⟩
  | recorded hcopy hreplaces _ _ hrecord =>
    apply hedited hcopy hreplaces (Secret.edited_withFingerprint? hrecord)
  | signed _ _ hcopy hreplaces _ _ =>
    have hversioned := ho.versioned _ _ hcopy.version.1
    apply hedited hcopy.version (hreplaces hversioned) (Secret.edited_withKeyPair _ _ _ _)
  | filled _ _ _ hcopy hreplaces _ =>
    have hversioned := ho.versioned _ _ hcopy.version.1
    apply hedited hcopy.version (hreplaces hversioned) (Secret.edited_filled _ _ _ _ _)

/-- Merging certificates into a version of a bundle is an edit of it. -/
theorem edited_rewritten {m : Option ConfigMap} (certs : List TrustedCertificate)
    (hat : ∀ live ∈ m, live.IsAt ref) (store : Store) :
  (m.getD (Object.blank .configMap ref)).Edited (store.stamped ref.ns (Bundle.rewritten ref m certs))
  := by
  have hedit := ConfigMap.edited_withText (m.getD (ConfigMap.new ref)) (encodeBundle certs)
    (show EntryKey.bundle ∈ _ by decide)
  apply hedit.trans
  apply Object.Edited.stamped
  rw [hedit.ns]
  cases m with
  | none => rfl
  | some live => apply (hat live rfl).1

theorem tended_own (definitions : List Definition) :
  Tended crowded (AllOwn definitions) definitions
  := by
  have hsteady : Procedure.Steady crowded (AllOwn definitions) := fun ho hd => ho.drift hd
  constructor
  · apply hsteady
  · intros
    trivial
  · intro h ho
    apply ho.coherent
  · intros
    trivial
  · intro h h' ref o ho hnamed hwork hw
    apply ho.wrote hnamed hw (hwork.edited ho)
  · intro h ref ca ho hnamed hca
    have hupkeep : Bundle.Upkeep crowded (AllOwn definitions) ref ca := by
      refine ⟨hsteady, fun ho => ho.coherent, trivial, hca.certPem_ne_empty, ?_⟩
      intro h₁ h₂ now ho₁ _ hw
      apply ho₁.wrote hnamed hw
      apply edited_rewritten
      intro live hlive
      apply (ho₁.coherent.live trivial hlive).1
    apply Procedure.safe_imp ho (Bundle.safe_ensure hupkeep ho)
    · intros
      trivial
    · intros
      trivial

/-- A pass may begin in any coherent history in which all versions were given by the store, with
caches that show nothing or any of the versions, while other writers are at work. Each of its
writes is to an object that a definition names. Compared with what was live immediately before, or
with nothing but a place if nothing was, it changes the version and the annotations and entries
that passes own. -/
theorem writes_own_entries (hcoherent : h.Coherent (fun _ _ => True)) (hversioned : Versioned h)
    (hcommits : h.commits = []) {p : Program Request.Answer (Except Stop Unit)}
    (hmet : Program.Met (History.step crowded) (fun p => p = (sync watched definitions).run) h p h') :
  ∀ c ∈ h'.commits, ∃ ref, Definition.Named definitions c.kind ref ∧ c.stored.IsAt ref
    ∧ (c.replaced.getD (Object.blank c.kind ref)).Edited c.stored
  := by
  have hbegins : AllOwn definitions h := ⟨hcoherent, hversioned, by simp [hcommits]⟩
  have ho : AllOwn definitions h' := by
    apply hmet.keeps hbegins
    rintro _ h'' rfl ho
    apply Program.Safe.mono (Procedure.safe_iff.mp ((tended_own definitions).sync ho))
    intro _ _ _
    trivial
  apply ho.commits

/-- The requests with which a pass begins if the cache shows a secret of the first signer on which
another policy is to be recorded. -/
theorem exists_first_requests {d : Definition} {stages : Stages} {rest : List Plan} {s updated : Secret}
    {now : Instant} (hplans : preflight watched definitions = .ok ((d, stages) :: rest))
    (hwatched : watched.contains d.signer.ns)
    (hrecord : s.withFingerprint? d.signerPolicy.fingerprint now = some updated) :
  ∃ next, (sync watched definitions).run = .ask (.cached .secret d.signer) next
    ∧ ∃ next', next (some s) = .ask .clock next'
      ∧ ∃ next'', next' now = .ask (.update .secret d.signer.ns updated) next''
  := by
  have hsync : sync watched definitions
      = planStages watched (d, stages) >>= fun _ => rest.forM (planStages watched) := by
    rw [sync_eq, hplans]
    rfl
  rw [hsync, planStages, signerStage, prepareSecret_eq _ hwatched]
  refine ⟨_, rfl, _, rfl, ?_⟩
  simp only [Program.done_bind, Function.comp_apply, ExceptT.bindCont, hrecord]
  exact ⟨_, rfl⟩

/-- A pass that was cut short after it recorded a policy on a secret with labels, which another
writer had created. -/
theorem writes_own_entries_of_created :
  ∃ (definitions : List Definition) (h h' : History) (p : Program Request.Answer (Except Stop Unit)),
    h.Coherent (fun _ _ => True) ∧ Versioned h ∧ h.commits = []
      ∧ Program.Met (History.step crowded)
        (fun p => p = (sync (NameSet.ofNames ["pki"]) definitions).run) h p h'
      ∧ h'.commits ≠ []
      ∧ ∀ c ∈ h'.commits, ∃ ref, Definition.Named definitions c.kind ref ∧ c.stored.IsAt ref
        ∧ (c.replaced.getD (Object.blank c.kind ref)).Edited c.stored
  := by
  let ref : ResourceRef := ⟨"pki", "ca"⟩
  let d : Definition := ⟨ref, Definition.sampleSignerPolicy, none, none, none, none, none⟩
  let foreign : Secret := ⟨{ Metadata.new ref with labels := some (Dict.ofList [("team", "web")]) }, {}⟩
  let first := History.start (Store.new ["pki"]) (.ofSeconds 0)
  let live := first.store.stamped ref.ns foreign
  let h := first.recorded (first.store.commit .create ref.ns foreign).2 live
  have hempty : first.Coherent (fun _ _ => True) :=
    History.coherent_start (fun k ref _ => Store.find?_new ["pki"] k ref) _
  have hcoherent : h.Coherent (fun _ _ => True) := hempty.recorded .create ref.ns foreign
  have hversioned : Versioned h := by
    have hnone : Versioned first := by
      intro k o hmem
      cases hmem
    apply hnone.recorded
  have hfind : h.store.find? .secret ref = some live :=
    Store.find?_commit_self first.store .create ref.ns foreign
  -- The pass sees the secret, looks at the clock and updates the secret.
  obtain ⟨updated, hrecord⟩ : ∃ updated,
      Secret.withFingerprint? live d.signerPolicy.fingerprint h.clock = some updated := ⟨_, rfl⟩
  have hplans : preflight (NameSet.ofNames ["pki"]) [d] = .ok ((d, .signer) :: []) := by
    have hplan : plan (NameSet.ofNames ["pki"]) d = .ok (d, .signer) := by
      apply plan_eq_ok.mpr
      refine ⟨rfl, rfl, ?_⟩
      decide
    simp only [preflight, List.mapM_cons, List.mapM_nil, hplan]
    rfl
  obtain ⟨next, hrun, next', hnext, next'', hnext'⟩ :=
    exists_first_requests hplans (by decide) hrecord
  obtain ⟨-, -, hname, hversion, -⟩ := Secret.withFingerprint?_eq_some hrecord
  have hupdate : h.store.update ref.ns updated
      = (.ok (h.store.stamped ref.ns updated), (h.store.commit .update ref.ns updated).2) := by
    rw [Store.update, hname, show (⟨ref.ns, live.name⟩ : ResourceRef) = ref from rfl, hfind]
    dsimp only
    rw [if_pos hversion.symm]
    rfl
  have hbegun : Program.Met (History.step crowded)
      (fun p => p = (sync (NameSet.ofNames ["pki"]) [d]).run) h
      (.ask (.cached .secret d.signer) next) h := .start hrun.symm
  have hshows : History.step crowded h (.cached .secret d.signer) (some live) h := by
    refine ⟨h, .none, rfl, ?_⟩
    rintro - o ho
    cases ho
    exact ⟨List.mem_cons_self, rfl, rfl⟩
  have htells : History.step crowded h .clock h.clock h := ⟨h, .none, rfl, rfl⟩
  have hseen := hbegun.answered hshows
  rw [hnext] at hseen
  have htimed := hseen.answered htells
  rw [hnext'] at htimed
  have hmet := htimed.answered ⟨h, .none, .inr ⟨_, _, hupdate, rfl, rfl⟩⟩
  refine ⟨[d], h, _, _, hcoherent, hversioned, rfl, hmet, ?_,
    writes_own_entries hcoherent hversioned rfl hmet⟩
  exact List.cons_ne_nil _ _

end Manager

end CertKeeper
