import CertKeeper.Proofs.Manager.PassLog
import CertKeeper.Proofs.Manager.UserChange
import CertKeeper.Proofs.Rotation.Hostnames

/-!
# Changes of an identity

A leaf stage that decides whether a certificate still serves compares the host names that the secret
records, and looks at nothing that tells one user from another. So a change of what a secret is for
shows only in some cases (`Definition.Discerned`): between services, and from a user to a service, unless
the host names of that service are left over from before the user.

`Secret.Traced` says of a version of a secret where its certificate and its host names come from. All
versions have it along every run of passes. So the certificate of a leaf is always for an identity that
the secret was assigned in the run, and for the latest one if the changes could be discerned
(`Manager.leaf_describes_identity`).
-/

namespace CertKeeper

open Manager

/-! ### Identities of a secret -/

/-- A certificate is for an identity, whose secret is in a namespace. -/
def Identity.Describes (ns : String) (info : CertificateInfo) : Identity → Prop
  | .service name =>
    info.dnsNames = [name, name ++ "." ++ ns, name ++ "." ++ ns ++ ".svc"]
      ∧ info.serverAuth = true ∧ info.clientAuth = false
  | .user name =>
    info.commonName = name ∧ info.dnsNames = [] ∧ info.clientAuth = true ∧ info.serverAuth = false

theorem Identity.describes_of_servedBy {leaf : Leaf} {info : CertificateInfo}
    (h : (leafRequest leaf).ServedBy info) :
  leaf.identity.Describes leaf.secret.ns info
  := by
  obtain ⟨secret, policy, identity⟩ := leaf
  obtain ⟨hcommonName, hdnsNames, hserver, hclient⟩ := h
  cases identity with
  | service name => exact ⟨hdnsNames, hserver, hclient⟩
  | user name => exact ⟨(Except.ok.inj hcommonName).symm, hdnsNames, hclient, hserver⟩

namespace Definition

variable {definitions : List Definition} {lists : List (List Definition)} {ref : ResourceRef}
variable {identity identity' : Identity}

/-- A secret is to hold a leaf certificate for an identity. -/
def Assigns (definitions : List Definition) (ref : ResourceRef) (identity : Identity) : Prop :=
  ∃ leaf, Asked definitions leaf ∧ leaf.secret = ref ∧ leaf.identity = identity

/-- The host names of a secret tell an identity from those that the secret was assigned before, where the
lists of definitions are given from the latest one on. A user has to be the only identity of the secret
all along, and a service must not have been followed by a user. -/
def Discerned (ref : ResourceRef) (lists : List (List Definition)) : Identity → Prop
  | .service name => lists.Pairwise (fun later earlier =>
      ∀ user, Assigns later ref (.user user) → ¬ Assigns earlier ref (.service name))
  | .user name => ∀ definitions ∈ lists, ∀ identity, Assigns definitions ref identity →
      identity = .user name

theorem Discerned.tail (h : Discerned ref (definitions :: lists) identity) :
  Discerned ref lists identity
  := by
  cases identity with
  | service name => apply (List.pairwise_cons.mp h).2
  | user name => exact fun definitions hmem => h definitions (List.mem_cons_of_mem _ hmem)

/-- Separate definitions assign a secret one identity at most. -/
theorem Separate.eq_of_assigns (hsep : Separate definitions) (h : Assigns definitions ref identity)
    (h' : Assigns definitions ref identity') :
  identity = identity'
  := by
  obtain ⟨leaf, ⟨d, hd, bundle, hstages⟩, rfl, rfl⟩ := h
  obtain ⟨leaf', ⟨d', hd', bundle', hstages'⟩, hsecret, rfl⟩ := h'
  obtain rfl := hsep.eq_of_names hd hstages hd' (hsecret ▸ Names.of_stages hstages')
  cases hstages.symm.trans hstages'
  rfl

/-- A user that the latest list assigns is the identity that is discerned, if that was assigned at all. -/
theorem Discerned.eq_of_user {user : String} (hdiscerned : Discerned ref (definitions :: lists) identity)
    (hsep : Separate definitions) (h : Assigns definitions ref (.user user))
    (h' : ∃ d ∈ definitions :: lists, Assigns d ref identity) :
  .user user = identity
  := by
  cases identity with
  | user name => apply hdiscerned definitions List.mem_cons_self _ h
  | service name =>
    obtain ⟨d, hmem, hassigned⟩ := h'
    rcases List.mem_cons.mp hmem with rfl | hmem
    · apply hsep.eq_of_assigns h hassigned
    · exact absurd hassigned ((List.pairwise_cons.mp hdiscerned).1 d hmem user h)

end Definition

/-! ### Where a certificate comes from -/

namespace Secret

variable {s s' : Secret} {request : LeafRequest} {leaf : Leaf} {definitions : List Definition}
variable {lists : List (List Definition)}

/-- The certificate of a secret serves a request. -/
def Serves (s : Secret) (request : LeafRequest) : Prop :=
  ∃ certPem info, s.text? EntryKey.certificate = some certPem
    ∧ parseCertificates certPem = .ok [⟨certPem, info⟩] ∧ request.ServedBy info

/-- A secret looks as if its certificate served a request. -/
structure Resembles (s : Secret) (request : LeafRequest) : Prop where
  certificate : s.text? EntryKey.certificate ≠ none
  hostnames : ∀ wanted, LeafStage.hostnames? request = some wanted →
    s.annotationAt? AnnotationKey.hostnames = some wanted

/-- The certificate of a secret was issued for an identity that one of the lists assigns to the secret of
a leaf, the host names of the leaf are recorded only if a list asks for them, and if the identity of the
leaf can be discerned, a secret that looks as if it served the leaf does. -/
structure Traced (leaf : Leaf) (lists : List (List Definition)) (s : Secret) : Prop where
  issued : s.text? EntryKey.certificate ≠ none → ∃ identity,
    (∃ definitions ∈ lists, Definition.Assigns definitions leaf.secret identity)
      ∧ s.Serves (leafRequest { leaf with identity := identity })
  recorded : ∀ hostnames, LeafStage.hostnames? (leafRequest leaf) = some hostnames →
    s.annotationAt? AnnotationKey.hostnames = some hostnames →
    ∃ definitions ∈ lists, Definition.Assigns definitions leaf.secret leaf.identity
  discerned : Definition.Discerned leaf.secret lists leaf.identity → s.Resembles (leafRequest leaf) →
    s.Serves (leafRequest leaf)

theorem Serves.of_text (h : s.Serves request)
    (hcert : s'.text? EntryKey.certificate = s.text? EntryKey.certificate) :
  s'.Serves request
  := by
  obtain ⟨certPem, info, htext, hserved⟩ := h
  exact ⟨certPem, info, hcert.trans htext, hserved⟩

/-- Only the certificate and the host names of a secret matter. -/
theorem Traced.of_same (h : s.Traced leaf lists)
    (hcert : s'.text? EntryKey.certificate = s.text? EntryKey.certificate)
    (hhostnames : s'.annotationAt? AnnotationKey.hostnames = s.annotationAt? AnnotationKey.hostnames) :
  s'.Traced leaf lists
  := by
  constructor
  · intro hsome
    rw [hcert] at hsome
    obtain ⟨identity, hassigned, hserves⟩ := h.issued hsome
    exact ⟨identity, hassigned, hserves.of_text hcert⟩
  · intro hostnames hwanted hannotated
    rw [hhostnames] at hannotated
    apply h.recorded hostnames hwanted hannotated
  · rintro hdiscerned ⟨hsome, hresembles⟩
    rw [hcert] at hsome
    rw [hhostnames] at hresembles
    apply (h.discerned hdiscerned ⟨hsome, hresembles⟩).of_text hcert

/-- There is nothing to trace in a secret without certificate and host names. -/
theorem traced_of_blank (hcert : s.text? EntryKey.certificate = none)
    (hhostnames : s.annotationAt? AnnotationKey.hostnames = none) :
  s.Traced leaf lists
  := by
  constructor
  · intro hsome
    exact absurd hcert hsome
  · intro hostnames _ hannotated
    cases hhostnames.symm.trans hannotated
  · rintro - ⟨hsome, -⟩
    exact absurd hcert hsome

/-- Another list leaves what comes from the lists before. -/
theorem Traced.cons (h : s.Traced leaf lists) (definitions : List Definition) :
  s.Traced leaf (definitions :: lists)
  := by
  constructor
  · intro hsome
    obtain ⟨identity, ⟨earlier, hmem, hassigns⟩, hserves⟩ := h.issued hsome
    exact ⟨identity, ⟨earlier, List.mem_cons_of_mem _ hmem, hassigns⟩, hserves⟩
  · intro hostnames hwanted hannotated
    obtain ⟨earlier, hmem, hassigns⟩ := h.recorded hostnames hwanted hannotated
    exact ⟨earlier, List.mem_cons_of_mem _ hmem, hassigns⟩
  · intro hdiscerned
    apply h.discerned hdiscerned.tail

/-- The certificate of a filled secret serves the request. -/
theorem serves_filled {r : LeafStage} {ca : Authority} {trusted : List TrustedCertificate}
    {now : Instant} {seed : Nat} {issued : IssuedCertificate}
    (hsign : ca.sign r.request now r.policy.lifetime (KeyPair.generate seed) = .ok issued) :
  (r.filled s ca trusted issued).Serves r.request
  := by
  obtain ⟨v, -, hserves⟩ := Authority.serves_of_sign hsign
  obtain ⟨hcert, -, -⟩ := @LeafStage.texts_filled r s ca trusted issued
  exact ⟨issued.certPem, issued.info, hcert, parseCertificates_pem (Authority.genuine_of_sign hsign),
    hserves.servedBy⟩

/-- Host names are those of one identity only. -/
theorem eq_of_hostnames? {identity : Identity} {hostnames : String}
    (h : LeafStage.hostnames? (leafRequest leaf) = some hostnames)
    (h' : LeafStage.hostnames? (leafRequest { leaf with identity := identity }) = some hostnames) :
  identity = leaf.identity
  := by
  obtain ⟨ref, policy, own⟩ := leaf
  cases own with
  | user name => cases h
  | service name =>
    cases identity with
    | user name' => cases h'
    | service name' =>
      obtain rfl := serviceHostnames_injective (Option.some.inj (h'.trans h.symm))
      rfl

/-- If the host names of a leaf are recorded on a secret that was filled for the latest list of
definitions, they were recorded for that list or one before. -/
theorem Traced.recorded_filled {identity : Identity} {r : LeafStage} {ca : Authority}
    {trusted : List TrustedCertificate} {issued : IssuedCertificate}
    (h : s.Traced leaf (definitions :: lists))
    (hassigns : Definition.Assigns definitions leaf.secret identity)
    (hrequest : r.request = leafRequest { leaf with identity := identity }) {hostnames : String}
    (hwanted : LeafStage.hostnames? (leafRequest leaf) = some hostnames)
    (hannotated : (r.filled s ca trusted issued).annotationAt? AnnotationKey.hostnames
      = some hostnames) :
  ∃ d ∈ definitions :: lists, Definition.Assigns d leaf.secret leaf.identity
  := by
  cases hnames : LeafStage.hostnames? r.request with
  | none =>
    rw [LeafStage.hostnames_filled_of_none hnames] at hannotated
    apply h.recorded hostnames hwanted hannotated
  | some hostnames' =>
    rw [LeafStage.hostnames_filled hnames] at hannotated
    cases hannotated
    obtain rfl := eq_of_hostnames? hwanted (hrequest ▸ hnames)
    exact ⟨definitions, List.mem_cons_self, hassigns⟩

/-- A secret that was filled for the latest list of definitions is traced. -/
theorem Traced.filled {identity : Identity} {r : LeafStage} {ca : Authority}
    {trusted : List TrustedCertificate} {now : Instant} {seed : Nat} {issued : IssuedCertificate}
    (h : s.Traced leaf (definitions :: lists)) (hsep : Definition.Separate definitions)
    (hassigns : Definition.Assigns definitions leaf.secret identity)
    (hrequest : r.request = leafRequest { leaf with identity := identity })
    (hsign : ca.sign r.request now r.policy.lifetime (KeyPair.generate seed) = .ok issued) :
  (r.filled s ca trusted issued).Traced leaf (definitions :: lists)
  := by
  have hserves : (r.filled s ca trusted issued).Serves (leafRequest { leaf with identity := identity }) :=
    hrequest ▸ serves_filled hsign
  constructor
  · intro _
    exact ⟨identity, ⟨definitions, List.mem_cons_self, hassigns⟩, hserves⟩
  · intro hostnames hwanted hannotated
    apply h.recorded_filled hassigns hrequest hwanted hannotated
  · intro hdiscerned hresembles
    obtain ⟨ref, policy, own⟩ := leaf
    have hsame : identity = own := by
      cases own with
      | user name => apply hdiscerned definitions List.mem_cons_self identity hassigns
      | service name =>
        have hannotated := hresembles.hostnames _ rfl
        cases identity with
        | user name' =>
          have hassigned := h.recorded_filled hassigns hrequest rfl hannotated
          apply hdiscerned.eq_of_user hsep hassigns hassigned
        | service name' =>
          have hnames : LeafStage.hostnames? r.request
              = some (hostnamesText (serviceHostnames name' ref.ns)) := by
            rw [hrequest]
            rfl
          rw [LeafStage.hostnames_filled hnames] at hannotated
          rw [serviceHostnames_injective (Option.some.inj hannotated)]
    obtain rfl := hsame
    apply hserves

end Secret

namespace Manager

variable {watched : NameSet} {definitions : List Definition} {lists : List (List Definition)}
variable {leaf : Leaf} {h h' : History}

/-! ### Runs of passes -/

/-- What goes on outside of passes if nobody else writes. -/
def undisturbed (watched : NameSet) : Outside :=
  ⟨fun _ _ => False, fun _ ref => watched.contains ref.ns, fun _ => True⟩

/-- All versions of the secret of a leaf are traced. -/
structure AllTraced (leaf : Leaf) (lists : List (List Definition)) (h : History) : Prop where
  coherent : h.Coherent (fun _ _ => True)
  versions : ∀ {s : Secret}, IsVersion leaf.secret s h → s.Traced leaf lists

theorem AllTraced.start {s : Store} (hempty : ∀ k ref, s.find? k ref = none) (now : Instant) :
  AllTraced leaf lists (History.start s now)
  := by
  constructor
  · apply History.coherent_start
    intro k ref _
    apply hempty k ref
  · rintro s ⟨hmem, -⟩
    cases hmem

theorem AllTraced.cons (ht : AllTraced leaf lists h) (definitions : List Definition) (now : Instant) :
  AllTraced leaf (definitions :: lists) { h with clock := now }
  := by
  obtain ⟨⟨hlive, hunique, hgiven⟩, hversions⟩ := ht
  exact ⟨⟨hlive, hunique, hgiven⟩, fun hs => (hversions hs).cons definitions⟩

theorem AllTraced.drift (ht : AllTraced leaf lists h) (hd : h.Drift (undisturbed watched) h') :
  AllTraced leaf lists h'
  := by
  constructor
  · apply ht.coherent.drift hd
  · rintro s ⟨hmem, hat⟩
    apply ht.versions ⟨hd.of_mem_past (fun hwrites => hwrites) hat hmem, hat⟩

theorem AllTraced.wrote {k : Kind} {ref : ResourceRef} {o : Object k} (ht : AllTraced leaf lists h)
    (hw : h.Wrote ref o h')
    (hnew : ∀ s : Secret, (⟨k, o⟩ : Sigma Object) = ⟨.secret, s⟩ → ref = leaf.secret →
      s.Traced leaf lists) :
  AllTraced leaf lists h'
  := by
  constructor
  · apply ht.coherent.wrote hw
  · rintro s ⟨hmem, hat⟩
    rcases hw.of_mem_past hmem with hsame | hmem
    · cases hsame
      apply (hnew o rfl (hw.isAt.eq hat)).of_same (Secret.text?_stamped _ _ _ _) rfl
    · apply ht.versions ⟨hmem, hat⟩

/-- Passes over definitions that do not sign with the secret of a leaf leave all its versions traced. -/
theorem tended_traced (hsep : Definition.Separate definitions)
    (hsigner : ∀ d ∈ definitions, d.signer ≠ leaf.secret)
    (hwatched : ∀ {k ref}, Definition.Named definitions k ref → watched.contains ref.ns) :
  Tended (undisturbed watched) (AllTraced leaf (definitions :: lists)) definitions
  := by
  have hsteady : Procedure.Steady (undisturbed watched) (AllTraced leaf (definitions :: lists)) :=
    fun ht hd => ht.drift hd
  constructor
  · apply hsteady
  · intros
    trivial
  · intro h ht
    apply ht.coherent.mono
    intros
    trivial
  · intro ref hnamed
    apply hwatched hnamed
  · intro h h' ref o ht hnamed hwork hw
    apply ht.wrote hw
    rintro s ⟨⟩ rfl
    cases hwork with
    | created _ => apply Secret.traced_of_blank rfl rfl
    | recorded hcopy _ _ _ hrecord =>
      obtain ⟨-, hcontent, -, -, hothers, -⟩ := Secret.withFingerprint?_eq_some hrecord
      apply (ht.versions hcopy).of_same (Secret.text?_of_content hcontent _)
      apply hothers <;> decide
    | signed hd hsigns => exact absurd hsigns (hsigner _ hd)
    | filled hasked hsecret hrequest hcopy _ hsign =>
      apply (ht.versions hcopy.version).filled hsep ⟨_, hasked, hsecret, rfl⟩ _ hsign
      rw [hrequest, leafRequest, leafRequest, hsecret]
  · intro h ref ca ht _ _
    apply Bundle.safe_ensure_of_indifferent hsteady _ ht
    intro h h' ref o ht hw
    apply ht.wrote hw
    rintro s ⟨⟩

/-- Passes one after the other in quiet surroundings, each over its own definitions and from any time on.
The lists of definitions are given from the latest one on. -/
inductive Passed (first : History) : List (List Definition) → History → Prop where
  | none : Passed first [] first
  | pass {lists : List (List Definition)} {definitions : List Definition} {h h' : History} {now : Instant}
      {watched : NameSet} {result : Except Stop Unit} :
    Passed first lists h →
      Program.Yields (History.quiet { watched := watched }) (sync watched definitions).run
        { h with clock := now } result h' →
      Passed first (definitions :: lists) h'

/-- A pass keeps all versions traced. -/
theorem AllTraced.pass {now : Instant} {result : Except Stop Unit} (ht : AllTraced leaf lists h)
    (hsep : Definition.Separate definitions) (hsigner : ∀ d ∈ definitions, d.signer ≠ leaf.secret)
    (hyields : Program.Yields (History.quiet { watched := watched }) (sync watched definitions).run
      { h with clock := now } result h') :
  AllTraced leaf (definitions :: lists) h'
  := by
  have hworks : Works (undisturbed watched) (AllTraced leaf (definitions :: lists))
      (sync watched definitions) (fun _ _ => True) { h with clock := now } := by
    cases hplans : preflight watched definitions with
    | ok plans =>
      have htended : Tended (undisturbed watched) (AllTraced leaf (definitions :: lists)) definitions :=
        tended_traced hsep hsigner (Definition.Named.watched hplans)
      apply Procedure.safe_mono (htended.sync (ht.cons definitions now))
      intros
      trivial
    | error e =>
      rw [sync_eq, hplans]
      apply Procedure.safe_bind
      apply Procedure.safe_fail
      trivial
  have hended := Procedure.ends_of_quiet (fun _ => trivial)
    (fun ht => ht.coherent.mono (fun _ _ _ => trivial)) (fun _ _ hfollows => hfollows) hworks
    (ht.cons definitions now) hyields
  apply hended.1

/-- A run of passes that begins with an empty store keeps all versions traced. -/
theorem AllTraced.of_passed {s : Store} {now : Instant} (hempty : ∀ k ref, s.find? k ref = none)
    (hpassed : Passed (History.start s now) lists h) (hsep : ∀ l ∈ lists, Definition.Separate l)
    (hsigner : ∀ l ∈ lists, ∀ d ∈ l, d.signer ≠ leaf.secret) :
  AllTraced leaf lists h
  := by
  induction hpassed with
  | none => apply AllTraced.start hempty
  | @pass lists definitions h h' _ _ _ _ hyields ih =>
    have ht : AllTraced leaf lists h := by
      apply ih
      · intro l hl
        apply hsep l (List.mem_cons_of_mem _ hl)
      · intro l hl
        apply hsigner l (List.mem_cons_of_mem _ hl)
    apply ht.pass (hsep _ List.mem_cons_self) (hsigner _ List.mem_cons_self) hyields

/-! ### The leaf of a definition -/

/-- A pass that goes through leaves a secret for each leaf that serves some authority. -/
theorem quietly_sync_serves {q : Quiet} (hsep : Definition.Separate definitions) (ho : h.Orderly q) :
  (sync q.watched definitions).Quietly q
    (fun _ h' => ∃ plans, preflight q.watched definitions = .ok plans ∧ h'.Orderly q
      ∧ ∀ p ∈ plans, LeafServes p h'.store)
    (fun _ _ => True) h
  := by
  apply safe_sync _ _ ho
  · intros
    trivial
  · intro plans hplans p hp h ho
    obtain ⟨hd, hstages, hwatched⟩ := mem_of_preflight hplans hp
    apply Procedure.safe_weaken (Procedure.safe_keeps ho (quietly_planStages ho hstages hwatched))
    · rintro _ h' ⟨ho', l, -, hextends, hserves⟩
      refine ⟨ho', hserves, ?_⟩
      rintro ⟨d', kept⟩ hp' hserves'
      obtain ⟨hd', hstages', -⟩ := mem_of_preflight hplans hp'
      cases kept with
      | signer => trivial
      | signerAndBundle bundle => trivial
      | full bundle leaf =>
        by_cases hnames : p.1.Names .secret leaf.secret
        · obtain ⟨d, kept⟩ := p
          obtain rfl := hsep.eq_of_names hd' hstages' hd hnames
          cases hstages.symm.trans hstages'
          apply hserves
        · obtain ⟨live, ca, hlive, hmismatch⟩ := hserves'
          exact ⟨live, ca, (hextends.others hnames).trans hlive, hmismatch⟩
    · intro e h' _
      trivial

/-- What a stage checks for any authority is that a secret looks as if it served. -/
theorem resembles_of_mismatch? {r : LeafStage} {s : Secret} {ca : Authority}
    (h : r.mismatch? s ca = none) :
  s.Resembles r.request
  := by
  obtain ⟨hcert, -, hhostnames⟩ := LeafStage.of_mismatch?_eq_none h
  refine ⟨?_, hhostnames⟩
  intro hnone
  rw [LeafStage.lacks, hnone] at hcert
  cases hcert

/-- After a run of passes from an empty store in quiet surroundings, each pass over its own separate
definitions, a pass goes through. Then the certificate of each of its leaves is for an identity that one
of the lists of the run assigns to the secret, unless a list uses the secret as a signer. It is for the
identity of the leaf if that can be discerned from the others. -/
theorem leaf_describes_identity {s : Store} {now now' : Instant}
    (hempty : ∀ k ref, s.find? k ref = none) (hpassed : Passed (History.start s now) lists h)
    (hyields : Program.Yields (History.quiet { watched := watched }) (sync watched definitions).run
      { h with clock := now' } (.ok ()) h')
    (hsep : ∀ l ∈ definitions :: lists, Definition.Separate l)
    (hsigner : ∀ l ∈ definitions :: lists, ∀ d ∈ l, d.signer ≠ leaf.secret)
    (hasked : Definition.Asked definitions leaf) :
  ∃ (live : Secret) (certPem : String) (info : CertificateInfo),
    h'.store.find? .secret leaf.secret = some live
    ∧ live.text? EntryKey.certificate = some certPem
    ∧ parseCertificates certPem = .ok [⟨certPem, info⟩]
    ∧ (∃ l ∈ definitions :: lists, ∃ identity, Definition.Assigns l leaf.secret identity
      ∧ identity.Describes leaf.secret.ns info)
    ∧ (Definition.Discerned leaf.secret (definitions :: lists) leaf.identity →
      leaf.identity.Describes leaf.secret.ns info)
  := by
  have hbefore : AllTraced leaf lists h := by
    apply AllTraced.of_passed hempty hpassed
    · intro l hl
      apply hsep l (List.mem_cons_of_mem _ hl)
    · intro l hl
      apply hsigner l (List.mem_cons_of_mem _ hl)
  have hafter : AllTraced leaf (definitions :: lists) h' :=
    hbefore.pass (hsep _ List.mem_cons_self) (hsigner _ List.mem_cons_self) hyields
  have ho : History.Orderly { watched := watched } { h with clock := now' } :=
    ⟨trivial, fun hfind => (hbefore.coherent.live trivial hfind).1.2⟩
  obtain ⟨plans, hplans, -, hserves⟩ := Program.Safe.of_yields
    (Procedure.safe_iff.mp (quietly_sync_serves (hsep _ List.mem_cons_self) ho)) hyields
  obtain ⟨d, hd, bundle, hstages⟩ := hasked
  obtain ⟨⟨d, kept⟩, hp, rfl, hkept⟩ := exists_plan hplans hd
  cases hstages.symm.trans hkept
  obtain ⟨live, ca, hlive, hmismatch⟩ := hserves _ hp
  have hresembles := resembles_of_mismatch? hmismatch
  obtain ⟨hat, hmem⟩ := hafter.coherent.live trivial hlive
  have htraced := hafter.versions ⟨hmem, hat⟩
  obtain ⟨identity, ⟨l, hl, hassigns⟩, certPem, info, htext, hparse, hserved⟩ :=
    htraced.issued hresembles.certificate
  refine ⟨live, certPem, info, hlive, htext, hparse, ?_, ?_⟩
  · exact ⟨l, hl, identity, hassigns, Identity.describes_of_servedBy hserved⟩
  · intro hdiscerned
    obtain ⟨certPem', info', htext', hparse', hserved'⟩ := htraced.discerned hdiscerned hresembles
    cases htext.symm.trans htext'
    cases hparse.symm.trans hparse'
    apply Identity.describes_of_servedBy hserved'

/-- A pass over the sample definitions for a service, followed by one for another user. -/
theorem leaf_describes_identity_of_sample :
  ∃ (h h' : History) (live : Secret) (certPem : String) (info : CertificateInfo),
    Passed (History.start (Store.new ["pki"]) (Instant.ofSeconds 0)) [Definition.sample "pki" "api"] h
    ∧ Program.Yields (History.quiet { watched := NameSet.ofNames ["pki"] })
      (sync (NameSet.ofNames ["pki"])
        ((Definition.sample "pki" "api").map (.withUser (fun _ => "guest")))).run
      { h with clock := Instant.ofSeconds 0 } (.ok ()) h'
    ∧ h'.store.find? .secret ⟨"pki", "api-server-cert"⟩ = some live
    ∧ live.text? EntryKey.certificate = some certPem
    ∧ parseCertificates certPem = .ok [⟨certPem, info⟩]
    ∧ (Identity.service "api").Describes "pki" info
  := by
  have hempty : ∀ k ref, (Store.new ["pki"]).find? k ref = none := Store.find?_new ["pki"]
  have hissuable : ∀ d ∈ Definition.sample "pki" "api", Issuable (Instant.ofSeconds 0) d :=
    issuable_sample_api 0 (by decide)
  have hshown : Shown (Instant.ofSeconds 0) := shown_ofSeconds 0
  have hcalm := World.calm_new ["pki"] (Instant.ofSeconds 0)
  -- Both passes go through in a calm world.
  obtain ⟨w, hrun, hcalm', hclock, -⟩ := exists_run_sample "pki" "api" (by decide) (by decide) hshown
    hissuable
  have hformed : Formed (Definition.sample "pki" "api")
      { store := Store.new ["pki"], clock := Instant.ofSeconds 0 } := by
    intro k ref _ o ho
    cases (hempty k ref).symm.trans ho
  have hrun' : World.run (sync (NameSet.ofNames ["pki"])
      ((Definition.sample "pki" "api").map (.withUser (fun _ => "guest")))) w = (.ok (), w) :=
    sync_keeps_users (fun _ => by decide) (agree_sample "pki" "api") (exclusive_sample "pki" "api")
      (Definition.separate_sample "pki" "api") (fun d hd => (hissuable d hd).sensible) hcalm hformed hrun
  -- They are passes of a history.
  have hcontinues : (History.start (Store.new ["pki"]) (Instant.ofSeconds 0)).Continues
      (NameSet.ofNames ["pki"]) { store := Store.new ["pki"], clock := Instant.ofSeconds 0 } :=
    ⟨hcalm, rfl, rfl⟩
  have hmakes : ∀ (s : Store) (key : KeyPair),
      Quiet.makes { watched := NameSet.ofNames ["pki"] } s key := fun _ _ => trivial
  obtain ⟨h, hyields, hcontinues'⟩ := hcontinues.yields hmakes
    (sync (NameSet.ofNames ["pki"]) (Definition.sample "pki" "api"))
  rw [hrun] at hyields hcontinues'
  have hagain : History.Continues (NameSet.ofNames ["pki"]) { h with clock := Instant.ofSeconds 0 } w :=
    ⟨hcalm', hcontinues'.store, hclock.symm⟩
  obtain ⟨h', hyields', -⟩ := hagain.yields hmakes
    (sync (NameSet.ofNames ["pki"]) ((Definition.sample "pki" "api").map (.withUser (fun _ => "guest"))))
  rw [hrun'] at hyields'
  have hpassed : Passed (History.start (Store.new ["pki"]) (Instant.ofSeconds 0))
      [Definition.sample "pki" "api"] h := .pass .none hyields
  -- The secret is for the service both times.
  let leaf : Leaf := ⟨⟨"pki", "api-server-cert"⟩, Definition.sampleLeafPolicy, .service "api"⟩
  have hsep := Definition.separate_sample "pki" "api"
  have hasked : Definition.Asked ((Definition.sample "pki" "api").map (.withUser (fun _ => "guest")))
      leaf := ⟨_, List.mem_cons_self, ⟨"pki", "api-ca-bundle"⟩, rfl⟩
  have hdiscerned : Definition.Discerned leaf.secret
      [(Definition.sample "pki" "api").map (.withUser (fun _ => "guest")), Definition.sample "pki" "api"]
      leaf.identity := by
    apply List.pairwise_pair.mpr
    intro user hassigns
    cases hsep.withUser.eq_of_assigns hassigns ⟨leaf, hasked, rfl, rfl⟩
  obtain ⟨live, certPem, info, hlive, htext, hparse, -, hdescribes⟩ :=
    leaf_describes_identity hempty hpassed hyields' (by simp [hsep, hsep.withUser]) (by decide) hasked
  exact ⟨h, h', live, certPem, info, hpassed, hyields', hlive, htext, hparse, hdescribes hdiscerned⟩

end Manager

end CertKeeper
