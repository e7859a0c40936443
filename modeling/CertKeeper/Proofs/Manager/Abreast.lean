import CertKeeper.Proofs.Cluster.Pair
import CertKeeper.Proofs.Manager.Reissue
import CertKeeper.Proofs.Manager.Twin
import CertKeeper.Proofs.Manager.Uncached

/-!
# Stages in two worlds

A stage is compared in two calm worlds that show the same time and have the same objects for it. Other
objects, the versions to be given next and the supply of keys may differ. In both worlds the stage goes
through or it stops in both. If it goes through, it makes the same writes (`World.Paces`), and what it
leaves is the same but for versions and for new certificates and keys. This module has the rules for the
requests and what they come to for the stage of a signer (`Manager.pairs_signerStage`).
-/

namespace CertKeeper

namespace World

variable {watched : NameSet} {places places' : Kind → ResourceRef → Prop} {k : Kind} {ref : ResourceRef}
variable {w w' w'' v v' v'' : World}

/-- Two calm worlds show the same time. -/
structure Abreast (watched : NameSet) (w v : World) : Prop where
  left : w.Calm watched
  right : v.Calm watched
  clock : v.clock = w.clock

/-- Two worlds have become others by the same writes to some places. -/
def Paces (watched : NameSet) (places : Kind → ResourceRef → Prop) (w v w' v' : World) : Prop :=
  ∃ log, w.Logs watched log w' ∧ v.Logs watched log v' ∧ ∀ x ∈ log, places x.kind x.ref

theorem Rests.logs (h : w.Rests watched w') :
  w.Logs watched [] w'
  := by
  refine ⟨h.calm, h.clock, ?_, ?_⟩
  · rw [h.store, List.append_nil]
  · intro k ref _
    rw [h.store]

theorem Abreast.rests (h : Abreast watched w v) (hw : w.Rests watched w') (hv : v.Rests watched v') :
  Abreast watched w' v'
  := ⟨hw.calm, hv.calm, hv.clock.trans (h.clock.trans hw.clock.symm)⟩

namespace Paces

theorem refl (h : Abreast watched w v) :
  Paces watched places w v w v
  := ⟨[], h.left.logs, h.right.logs, fun _ hx => nomatch hx⟩

theorem of_rests (hw : w.Rests watched w') (hv : v.Rests watched v') :
  Paces watched places w v w' v'
  := ⟨[], hw.logs, hv.logs, fun _ hx => nomatch hx⟩

theorem of_wrote {verb : WriteVerb} {o o' : Object k} (hw : w.Wrote watched verb ref o w')
    (hv : v.Wrote watched verb ref o' v') :
  Paces watched (History.only k ref) w v w' v'
  := by
  refine ⟨_, hw.logs, hv.logs, ?_⟩
  intro x hx
  obtain rfl := List.mem_singleton.mp hx
  exact ⟨rfl, rfl⟩

theorem trans (h : Paces watched places w v w' v') (h' : Paces watched places w' v' w'' v'') :
  Paces watched places w v w'' v''
  := by
  obtain ⟨log, hw, hv, hplaces⟩ := h
  obtain ⟨log', hw', hv', hplaces'⟩ := h'
  refine ⟨log ++ log', hw.trans hw', hv.trans hv', ?_⟩
  intro x hx
  rcases List.mem_append.mp hx with hx | hx
  · apply hplaces x hx
  · apply hplaces' x hx

theorem mono (h : Paces watched places w v w' v') (hplaces : ∀ {k ref}, places k ref → places' k ref) :
  Paces watched places' w v w' v'
  := by
  obtain ⟨log, hw, hv, hlog⟩ := h
  exact ⟨log, hw, hv, fun x hx => hplaces (hlog x hx)⟩

theorem abreast (h : Paces watched places w v w' v') (ha : Abreast watched w v) :
  Abreast watched w' v'
  := by
  obtain ⟨log, hw, hv, -⟩ := h
  exact ⟨hw.calm, hv.calm, hv.clock.trans (ha.clock.trans hw.clock.symm)⟩

theorem clock (h : Paces watched places w v w' v') :
  w'.clock = w.clock
  := by
  obtain ⟨log, hw, -, -⟩ := h
  apply hw.clock

/-- Other places are as they were. -/
theorem find?_of_not (h : Paces watched places w v w' v') (k : Kind) (ref : ResourceRef)
    (hother : ¬ places k ref) :
  w'.store.find? k ref = w.store.find? k ref ∧ v'.store.find? k ref = v.store.find? k ref
  := by
  obtain ⟨log, hw, hv, hplaces⟩ := h
  have hlog : ∀ x ∈ log, ¬ (k = x.kind ∧ ref = x.ref) := by
    rintro x hx ⟨rfl, rfl⟩
    exact hother (hplaces x hx)
  exact ⟨hw.others hlog, hv.others hlog⟩

end Paces

end World

open World

/-! ### Requests in two worlds -/

namespace Procedure

variable {k : Kind} {watched : NameSet} {w v : World} {ref : ResourceRef}
variable {stop : Stop → Stop → World → World → Prop}

theorem pairs_cached {ok : Option (Object k) → Option (Object k) → World → World → Prop}
    (ha : Abreast watched w v) (hwatched : watched.contains ref.ns)
    (h : ok (w.store.find? k ref) (v.store.find? k ref) w v) :
  Pairs (cached k ref) (cached k ref) ok stop w v
  := by
  apply pairs_ask
  simp only [World.handle, ha.left.cached?_eq hwatched, ha.right.cached?_eq hwatched]
  apply h

theorem pairs_clock {ok : Instant → Instant → World → World → Prop} (ha : Abreast watched w v)
    (h : ok w.clock w.clock w v) :
  Pairs clock clock ok stop w v
  := by
  apply pairs_ask
  simp only [World.handle, ha.clock]
  apply h

theorem pairs_find {ok : Option (Object k) → Option (Object k) → World → World → Prop}
    (ha : Abreast watched w v)
    (h : ∀ {w' v'}, w.Rests watched w' → v.Rests watched v' →
      ok (w.store.find? k ref) (v.store.find? k ref) w' v') :
  Pairs (find k ref) (find k ref) ok stop w v
  := by
  have hfind : ∀ {w : World}, w.Calm watched → (find k ref).Leads
      (fun o w' => o = w.store.find? k ref ∧ w.Rests watched w') (fun _ _ => False) w := by
    intro w hw
    apply leads_find hw
    intro w' hrests
    exact ⟨rfl, hrests⟩
  apply pairs_of_leads (hfind ha.left) (hfind ha.right)
  rintro o o' w' v' ⟨rfl, hrests⟩ ⟨rfl, hrests'⟩
  apply h hrests hrests'

theorem pairs_publish {o o' : Object k} {reason action note reason' action' note' : String}
    {ok : Unit → Unit → World → World → Prop} (ha : Abreast watched w v)
    (h : ∀ {w' v'}, w.Rests watched w' → v.Rests watched v' → ok () () w' v') :
  Pairs (publish o reason action note) (publish o' reason' action' note') ok stop w v
  := by
  have hpublish : ∀ {w : World} {o : Object k} {reason action note : String}, w.Calm watched →
      (publish o reason action note).Leads (fun _ w' => w.Rests watched w') (fun _ _ => False) w := by
    intro w o reason action note hw
    apply leads_publish hw
    intro w' hrests
    apply hrests
  apply pairs_of_leads (hpublish ha.left) (hpublish ha.right)
  rintro ⟨⟩ ⟨⟩ w' v' hrests hrests'
  apply h hrests hrests'

/-- Two objects are stored over the live ones that they were made from. -/
theorem pairs_update {o o' live live' : Object k} {ok : Object k → Object k → World → World → Prop}
    (ha : Abreast watched w v) (hwatched : watched.contains ref.ns) (hname : o.name = ref.name)
    (hname' : o'.name = ref.name) (hlive : w.store.find? k ref = some live)
    (hlive' : v.store.find? k ref = some live') (hversion : live.version = o.version)
    (hversion' : live'.version = o'.version)
    (h : ∀ {w' v'}, w.Wrote watched .update ref o w' → v.Wrote watched .update ref o' v' →
      ok (w.store.stamped ref.ns o) (v.store.stamped ref.ns o') w' v') :
  Pairs (update k ref.ns o) (update k ref.ns o') ok stop w v
  := by
  have hupdate : ∀ {w : World} {o live : Object k}, w.Calm watched → o.name = ref.name →
      w.store.find? k ref = some live → live.version = o.version →
      (update k ref.ns o).Leads (fun stored w' => stored = w.store.stamped ref.ns o
        ∧ w.Wrote watched .update ref o w') (fun _ _ => False) w := by
    intro w o live hw hname hlive hversion
    apply leads_update hw hwatched hname hlive hversion
    intro w' hwrote _
    exact ⟨rfl, hwrote⟩
  apply pairs_of_leads (hupdate ha.left hname hlive hversion)
    (hupdate ha.right hname' hlive' hversion')
  rintro stored stored' w' v' ⟨rfl, hwrote⟩ ⟨rfl, hwrote'⟩
  apply h hwrote hwrote'

/-- Two objects are created where there is none. -/
theorem pairs_create {o o' : Object k} {ok : Object k → Object k → World → World → Prop}
    (ha : Abreast watched w v) (hwatched : watched.contains ref.ns) (hname : o.name = ref.name)
    (hname' : o'.name = ref.name) (hnone : w.store.find? k ref = none)
    (hnone' : v.store.find? k ref = none)
    (h : ∀ {w' v'}, w.Wrote watched .create ref o w' → v.Wrote watched .create ref o' v' →
      ok (w.store.stamped ref.ns o) (v.store.stamped ref.ns o') w' v') :
  Pairs (create k ref.ns o) (create k ref.ns o') ok stop w v
  := by
  have hcreate : ∀ {w : World} {o : Object k}, w.Calm watched → o.name = ref.name →
      w.store.find? k ref = none → (create k ref.ns o).Leads
        (fun stored w' => stored = w.store.stamped ref.ns o ∧ w.Wrote watched .create ref o w')
        (fun _ _ => False) w := by
    intro w o hw hname hnone
    apply leads_create hw hwatched hname hnone
    intro w' hwrote
    exact ⟨rfl, hwrote⟩
  apply pairs_of_leads (hcreate ha.left hname hnone) (hcreate ha.right hname' hnone')
  rintro stored stored' w' v' ⟨rfl, hwrote⟩ ⟨rfl, hwrote'⟩
  apply h hwrote hwrote'

end Procedure

namespace Manager

open Procedure

variable {watched : NameSet} {w v w' v' : World} {ref : ResourceRef} {d : Definition}
variable {ca ca' : Authority} {origin : Store} {stop : Stop → Stop → World → World → Prop}

/-! ### Preparing a secret -/

/-- What a secret holds before a stage: nothing if it is not there yet. -/
def heldAt (w : World) (ref : ResourceRef) : SecretContent :=
  (w.store.find? .secret ref).elim ({} : SecretContent) (fun s => s.content)

/-- What preparing a secret comes to in two worlds. -/
structure ReadiedAlike (watched : NameSet) (ref : ResourceRef) (w v : World) (s s' : Secret)
    (w' v' : World) : Prop where
  paced : Paces watched (History.only .secret ref) w v w' v'
  live : w'.store.find? .secret ref = some s
  live' : v'.store.find? .secret ref = some s'
  named : s.name = ref.name
  metadata : s.metadata.SameAs s'.metadata
  content : s.content = heldAt w ref
  content' : s'.content = heldAt v ref

/-- The live secrets have the names of their place, and the same metadata but for their versions. -/
structure LiveAlike (ref : ResourceRef) (w v : World) : Prop where
  metadata : Option.Rel (fun s s' : Secret => s.metadata.SameAs s'.metadata)
    (w.store.find? .secret ref) (v.store.find? .secret ref)
  named : ∀ s : Secret, w.store.find? .secret ref = some s → s.name = ref.name

theorem ReadiedAlike.named' {s s' : Secret} (h : ReadiedAlike watched ref w v s s' w' v') :
  s'.name = ref.name
  := h.metadata.name.trans h.named

theorem pairs_createSecret {ok : Secret → Secret → World → World → Prop} (ha : Abreast watched w v)
    (hwatched : watched.contains ref.ns) (hnone : w.store.find? .secret ref = none)
    (hnone' : v.store.find? .secret ref = none)
    (h : ∀ {w' v'}, w.Wrote watched .create ref (⟨{ name := ref.name }, {}⟩ : Secret) w' →
      v.Wrote watched .create ref (⟨{ name := ref.name }, {}⟩ : Secret) v' →
      ok (w.store.stamped ref.ns (⟨{ name := ref.name }, {}⟩ : Secret))
        (v.store.stamped ref.ns (⟨{ name := ref.name }, {}⟩ : Secret)) w' v') :
  Pairs (createSecret ref) (createSecret ref) ok stop w v
  := by
  have hcreate : ∀ {w : World}, w.Calm watched → w.store.find? .secret ref = none →
      (createSecret ref).Leads
        (fun s w' => s = w.store.stamped ref.ns (⟨{ name := ref.name }, {}⟩ : Secret)
          ∧ w.Wrote watched .create ref (⟨{ name := ref.name }, {}⟩ : Secret) w')
        (fun _ _ => False) w := by
    intro w hw hnone
    apply safe_bind
    apply leads_askCreate hw hwatched rfl hnone
    intro w' hwrote
    apply safe_pure
    exact ⟨rfl, hwrote⟩
  apply pairs_of_leads (hcreate ha.left hnone) (hcreate ha.right hnone')
  rintro s s' w' v' ⟨rfl, hwrote⟩ ⟨rfl, hwrote'⟩
  apply h hwrote hwrote'

theorem pairs_ensureSecret (ha : Abreast watched w v) (hwatched : watched.contains ref.ns)
    (hlive : LiveAlike ref w v) :
  Pairs (ensureSecret ref) (ensureSecret ref) (ReadiedAlike watched ref w v) (fun _ _ _ _ => False) w v
  := by
  have hmetadata := hlive.metadata
  rw [ensureSecret_eq]
  apply pairs_bind
  apply pairs_cached ha hwatched
  generalize hfind : w.store.find? .secret ref = copy at *
  generalize hfind' : v.store.find? .secret ref = copy' at *
  cases hmetadata with
  | some hsame =>
    apply pairs_pure
    refine ⟨.refl ha, hfind, hfind', hlive.named _ hfind, hsame, ?_, ?_⟩
    · rw [heldAt, hfind]
      rfl
    · rw [heldAt, hfind']
      rfl
  | none =>
    apply pairs_createSecret ha hwatched hfind hfind'
    intro w₁ v₁ hwrote hwrote'
    refine ⟨.of_wrote hwrote hwrote', hwrote.find?_self, hwrote'.find?_self, rfl,
      Metadata.SameAs.stamped rfl _ _ _, ?_, ?_⟩
    · rw [heldAt, hfind]
      rfl
    · rw [heldAt, hfind']
      rfl

theorem pairs_ensurePolicy {s s' : Secret} (ha : Abreast watched w v)
    (hwatched : watched.contains ref.ns) (policy : Policy) (h : ReadiedAlike watched ref w v s s' w' v') :
  Pairs (ensurePolicy s ref policy) (ensurePolicy s' ref policy) (ReadiedAlike watched ref w v)
    (fun _ _ _ _ => False) w' v'
  := by
  have ha' := h.paced.abreast ha
  have hmarked := Secret.withFingerprint?_of_sameAs h.metadata policy.fingerprint w'.clock
  apply pairs_bind
  apply pairs_clock ha'
  generalize hmark : s.withFingerprint? policy.fingerprint w'.clock = marked at *
  generalize hmark' : s'.withFingerprint? policy.fingerprint w'.clock = marked' at *
  cases hmarked with
  | none => apply pairs_pure h
  | some hmetadata =>
    obtain ⟨-, hcontent, hname, hversion, -⟩ := Secret.withFingerprint?_eq_some hmark
    obtain ⟨-, hcontent', hname', hversion', -⟩ := Secret.withFingerprint?_eq_some hmark'
    apply pairs_update ha' hwatched (hname.trans h.named) (hname'.trans h.named') h.live h.live'
      hversion.symm hversion'.symm
    intro w₁ v₁ hwrote hwrote'
    refine ⟨h.paced.trans (.of_wrote hwrote hwrote'), hwrote.find?_self, hwrote'.find?_self,
      hname.trans h.named, hmetadata.stamped _ _ _, ?_, ?_⟩
    · apply hcontent.trans h.content
    · apply hcontent'.trans h.content'

/-- In two worlds a secret is prepared alike. -/
theorem pairs_prepareSecret (ha : Abreast watched w v) (hwatched : watched.contains ref.ns)
    (policy : Policy) (hlive : LiveAlike ref w v) :
  Pairs (prepareSecret watched ref policy) (prepareSecret watched ref policy)
    (ReadiedAlike watched ref w v) (fun _ _ _ _ => False) w v
  := by
  rw [prepareSecret_eq policy hwatched]
  apply pairs_bind
  apply (pairs_ensureSecret ha hwatched hlive).mono
  · intro s s' w₁ v₁ h
    apply pairs_ensurePolicy ha hwatched policy h
  · intro e e' w₁ v₁ h
    apply h

/-- A prepared secret says what the live one said, as far as its content goes. -/
theorem publishedAuthority?_of_heldAt {s : Secret} (h : s.content = heldAt w ref) :
  LeafStage.publishedAuthority? s = (w.store.find? .secret ref).bind LeafStage.publishedAuthority?
  := by
  cases hfind : w.store.find? .secret ref with
  | none =>
    rw [heldAt, hfind] at h
    have hblank : s.content = (⟨{ name := ref.name }, {}⟩ : Secret).content := h
    rw [LeafStage.publishedAuthority?_of_content hblank]
    rfl
  | some live =>
    rw [heldAt, hfind] at h
    apply LeafStage.publishedAuthority?_of_content h

/-! ### The signer stage -/

/-- What the stage of a signer comes to in two worlds: the secrets hold the authorities, and say to trust
what they said before. -/
structure SignedAlike (watched : NameSet) (origin : Store) (ref : ResourceRef) (w v : World)
    (ca ca' : Authority) (w' v' : World) : Prop where
  paced : Paces watched (History.only .secret ref) w v w' v'
  renewed : ca.Renewed origin ca'
  secrets : ∃ s s' : Secret, w'.store.find? .secret ref = some s ∧ v'.store.find? .secret ref = some s'
    ∧ s.name = ref.name ∧ s.authority = .ok ca ∧ s'.authority = .ok ca' ∧ s.Akin ca ca' s'
    ∧ LeafStage.publishedAuthority? s
      = (w.store.find? .secret ref).bind LeafStage.publishedAuthority?

/-- What two prepared secrets are like once both hold a new authority. -/
theorem akin_stamped_withKeyPair {s s' : Secret} (hsame : s.SameAs s') (hmade : ca.MadeAlike ca')
    (t t' : Store) (ns : String) :
  Secret.Akin ca ca' (t.stamped ns (s.withKeyPair ca.certPem ca.keyPem ca.info))
    (t'.stamped ns (s'.withKeyPair ca'.certPem ca'.keyPem ca'.info))
  := by
  constructor
  · rw [hmade.info]
    apply Metadata.SameAs.stamped
    apply (hsame.metadata.annotate _ _).annotate
  · refine .inr ⟨hmade, s, rfl, ?_⟩
    apply Secret.content_withPair hsame.content

/-- In two worlds a signer is replaced alike, unless no new authority can be made in either. -/
theorem pairs_rotateSigner {policy : Policy} {known known' : Option Secret} {s s' : Secret}
    (ha : Abreast watched w v) (hwatched : watched.contains ref.ns)
    (h : ReadiedAlike watched ref w v s s' w' v') (hsame : s.SameAs s')
    (hnew : (KeyPair.generate w'.keys).NewIn origin) (hnew' : (KeyPair.generate v'.keys).NewIn origin)
    (now : Instant) (reason : SignerRequest.Reason) :
  Pairs (SignerRequest.rotate ⟨ref, policy, known⟩ s now reason)
    (SignerRequest.rotate ⟨ref, policy, known'⟩ s' now reason)
    (SignedAlike watched origin ref w v) (fun _ _ _ _ => True) w' v'
  := by
  have ha' := h.paced.abreast ha
  have hclock := ha'.clock
  apply Pairs.mono (pairs_of_agree
    (leads_replaceSigner ha'.left hwatched h.live h.named now reason (fun hnone _ _ => hnone))
    (leads_replaceSigner ha'.right hwatched h.live' h.named' now reason (fun hnone _ _ => hnone)) _ _)
  · rintro ca ca' w₁ v₁ ⟨⟨validity, hval, hca, hwrote⟩, validity', hval', hca', hwrote'⟩
    rw [hclock] at hval'
    cases hval.symm.trans hval'
    have hmade : ca.MadeAlike ca' := ⟨_, _, _, validity, _, _, hval, hca, hca'⟩
    refine ⟨h.paced.trans (.of_wrote hwrote hwrote'),
      .made hmade (Authority.unlisted_of_not_lists (hnew _ _ _ hca))
        (Authority.unlisted_of_not_lists (hnew' _ _ _ hca')),
      _, _, hwrote.find?_self, hwrote'.find?_self, h.named, ?_, ?_,
      akin_stamped_withKeyPair hsame hmade _ _ _, ?_⟩
    · rw [Secret.authority_of_content (Object.content_stamped _ _ _)]
      apply Secret.authority_withKeyPair hmade.sound.1.loaded
    · rw [Secret.authority_of_content (Object.content_stamped _ _ _)]
      apply Secret.authority_withKeyPair hmade.sound.2.loaded
    · rw [← publishedAuthority?_of_heldAt h.content, LeafStage.publishedAuthority?,
        LeafStage.publishedAuthority?, Secret.text?_stamped, Secret.text?_withKeyPair,
        if_neg (by decide), if_neg (by decide)]
  · intros
    trivial
  -- One world can make an authority if the other one can.
  · rintro ca e w₁ v₁ ⟨validity, hval, hca, -⟩ hnone
    obtain ⟨ca', hca'⟩ := Authority.exists_generate_of_generate hval hca v'.keys
    rw [← hclock] at hval
    exact hnone validity hval ca' hca'
  · rintro e ca' w₁ v₁ hnone ⟨validity, hval, hca', -⟩
    rw [hclock] at hval
    obtain ⟨ca, hca⟩ := Authority.exists_generate_of_generate hval hca' w'.keys
    exact hnone validity hval ca hca

/-- In two worlds with the same signer its stage comes to the same. -/
theorem pairs_signerStage (ha : Abreast watched w v) (hwatched : watched.contains d.signer.ns)
    (hsame : v.store.find? .secret d.signer = w.store.find? .secret d.signer)
    (hnamed : ∀ s : Secret, w.store.find? .secret d.signer = some s → s.name = d.signer.name)
    (hnew : (KeyPair.generate w.keys).NewIn origin) (hnew' : (KeyPair.generate v.keys).NewIn origin) :
  Pairs (signerStage watched d) (signerStage watched d) (SignedAlike watched origin d.signer w v)
    (fun _ _ _ _ => True) w v
  := by
  have hlive : LiveAlike d.signer w v := by
    refine ⟨?_, hnamed⟩
    rw [hsame]
    cases w.store.find? .secret d.signer with
    | none => exact .none
    | some s => exact .some rfl
  have hkeys : ∀ {w : World}, (prepareSecret watched d.signer d.signerPolicy).Leads
      (fun _ w' => w'.keys = w.keys) (fun _ _ => True) w := by
    intro w
    apply (draws_prepareSecret d.signer d.signerPolicy).leads.mono
    · rintro s w' ⟨hfrom, hto⟩
      apply Nat.le_antisymm hto hfrom
    · intro e w' hstop
      apply hstop
  apply pairs_bind
  apply ((pairs_prepareSecret ha hwatched d.signerPolicy hlive).and_leads hkeys hkeys).mono
  · rintro s s' w₁ v₁ ⟨h, hkeys₁, hkeys₁'⟩
    have ha₁ := h.paced.abreast ha
    have hequal : s.SameAs s' := by
      refine ⟨h.metadata, ?_⟩
      rw [h.content, h.content', heldAt, heldAt, hsame]
    rw [SignerRequest.ensure_eq rfl, SignerRequest.ensure_eq rfl]
    apply pairs_bind
    apply pairs_clock ha₁
    rw [SignerRequest.check_of_sameAs hequal (some s) (some s')]
    apply pairs_bind
    apply pairs_ofComputation
    · intro checked hchecked
      cases checked with
      | ok ca =>
        have hauthority := (SignerRequest.check_eq_ok_ok.mp hchecked).1
        apply pairs_pure
        refine ⟨h.paced, .kept, s, s', h.live, h.live', h.named, hauthority, ?_, .of_sameAs hequal,
          publishedAuthority?_of_heldAt h.content⟩
        rw [Secret.authority_of_content hequal.content, hauthority]
      | error reason =>
        rw [← hkeys₁] at hnew
        rw [← hkeys₁'] at hnew'
        apply pairs_rotateSigner ha hwatched h hequal hnew hnew'
    · intro e _
      trivial
  · intros
    trivial

end Manager

end CertKeeper
