import CertKeeper.Proofs.Definition.Sample

/-!
# Trust before use

Passes over definitions may be cut short anywhere, decide from stale copies and be begun again,
over several rotations of the signers. At every point of such a run, a leaf's certificate was
issued by the first certificate that its secret says to trust, and the bundle of the definition
lists that certificate for as long as it has not expired (`Manager.trusted_before_use`).
-/

namespace CertKeeper

/-- A secret has bytes for a certificate or for a private key. -/
def Secret.HasKeyMaterial (s : Secret) : Prop :=
  (s.bytes? EntryKey.certificate).isSome ∨ (s.bytes? EntryKey.privateKey).isSome

namespace Manager

/-- The certificate of a secret was issued by the first one of those that the secret says to
trust, and if that one has not expired, then the live bundle lists it. -/
def Vouched (h : History) (bundle : ResourceRef) (s : Secret) : Prop :=
  ∃ certPem text first rest cert issuer,
    s.text? EntryKey.certificate = some certPem ∧ Authority.certificate? certPem = some cert
      ∧ s.text? EntryKey.authority = some text ∧ parseCertificates text = .ok (first :: rest)
      ∧ Authority.certificate? first.pem = some issuer ∧ cert.IssuedBy issuer
      ∧ (first.info.isExpired h.clock = false →
        ∃ live, h.store.find? .configMap bundle = some live ∧ first ∈ Bundle.listed (some live))

variable {definitions : List Definition} {shows : Instant → Prop} {watched : NameSet}
variable {plans : List Plan} {h : History} {d : Definition} {bundle target : ResourceRef}
variable {secret : Secret}

/-- In custody, key material is vouched for. -/
theorem Custody.vouched {leaf : Leaf} (hc : Custody definitions shows h) (hd : d ∈ definitions)
    (hstages : d.stages = .ok (.full bundle leaf))
    (hfind : h.store.find? .secret leaf.secret = some secret) (hmaterial : secret.HasKeyMaterial) :
  Vouched h bundle secret
  := by
  obtain ⟨hbundle, htarget⟩ := Definition.of_stages hstages
  obtain ⟨hmem, hat⟩ := hc.isVersion ⟨d, hd, .of_stages hstages⟩ hfind
  obtain hblank | ⟨first, info, certPem, keyPem, hholds, -, m, hm, hplace, hlisted⟩ :=
    hc.leaves d hd bundle leaf hstages secret hmem hat
  · rw [Secret.HasKeyMaterial, hblank, hblank] at hmaterial
    rcases hmaterial with hnone | hnone <;> cases hnone
  · obtain ⟨cert, issuer, hcert, -, hissuer, hissued⟩ := hholds.issued
    obtain ⟨text, rest, htext, hparse⟩ := LeafStage.publishedAuthority?_eq_some hholds.authority
    refine ⟨certPem, text, first, rest, cert, issuer, hholds.certificate, hcert, htext, hparse,
      hissuer, hissued, ?_⟩
    intro hexpired
    apply hc.bundles d hd bundle hbundle m hm hplace first hlisted hexpired

/-- A run of passes over valid and watched definitions begins without the objects that they name,
and nobody else writes these. Whenever the target of a definition holds key material, it is
vouched for. -/
theorem trusted_before_use (hvalid : preflight watched definitions = .ok plans)
    (hsep : Definition.Separate definitions) {s : Store} {now : Instant}
    (hnone : ∀ k ref, Definition.Named definitions k ref → s.find? k ref = none)
    {p : Program Request.Answer (Except Stop Unit)}
    (hmet : Program.Met (History.step (apart definitions (fun _ => True)))
      (fun p => p = (sync watched definitions).run) (History.start s now) p h)
    (hd : d ∈ definitions) (hbundle : d.bundle = some bundle) (htarget : d.target = some target)
    (hfind : h.store.find? .secret target = some secret) (hmaterial : secret.HasKeyMaterial) :
  Vouched h bundle secret
  := by
  have hc : Custody definitions (fun _ => True) h := custody_of_met hsep trivial hnone hmet
  obtain ⟨p, -, -, hstages⟩ := exists_plan hvalid hd
  obtain ⟨leaf, hkept, rfl⟩ := Definition.full_of_stages hstages hbundle htarget
  rw [hkept] at hstages
  apply hc.vouched hd hstages hfind hmaterial

/-- After a pass over the sample definitions for a service. -/
theorem trusted_before_use_of_sample :
  ∃ h secret, Program.Met (History.step (apart (Definition.sample "pki" "api") (fun _ => True)))
      (fun p => p = (sync (NameSet.ofNames ["pki"]) (Definition.sample "pki" "api")).run)
      (History.start (Store.new ["pki"]) (Instant.ofSeconds 0)) (.done (.ok ())) h
    ∧ h.store.find? .secret ⟨"pki", "api-server-cert"⟩ = some secret ∧ Secret.HasKeyMaterial secret
    ∧ Vouched h ⟨"pki", "api-ca-bundle"⟩ secret
  := by
  obtain ⟨plans, hplans⟩ := preflight_sample (show "pki" ≠ "" by decide) (show "api" ≠ "" by decide)
  obtain ⟨h, w, hmet, hcontinues, -, hrestored⟩ := exists_met_sample "pki" "api" (fun _ => True)
    (by decide) (by decide) (shown_ofSeconds 0) (issuable_sample_api 0 (by decide))
  obtain ⟨ca, -, -, hleaf⟩ := hrestored _ List.mem_cons_self
  obtain ⟨leaf, secret, info, certPem, keyPem, -, hat, hlive, hholds, -⟩ := hleaf _ _ rfl rfl
  rw [hat, ← hcontinues.store] at hlive
  have hmaterial : Secret.HasKeyMaterial secret := by
    obtain ⟨bytes, hbytes, -⟩ := Option.bind_eq_some_iff.mp hholds.certificate
    left
    rw [hbytes]
    rfl
  refine ⟨h, secret, hmet, hlive, hmaterial, ?_⟩
  apply trusted_before_use hplans (Definition.separate_sample "pki" "api")
    (fun k ref _ => Store.find?_new ["pki"] k ref) hmet List.mem_cons_self rfl rfl hlive hmaterial

end Manager

end CertKeeper
