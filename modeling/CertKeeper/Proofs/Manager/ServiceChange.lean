import CertKeeper.Proofs.Manager.Renewal
import CertKeeper.Proofs.Rotation.Hostnames

/-!
# A change of the service is noticed

A leaf stage that goes through for the host names of a server leaves a secret behind on which their text
is recorded, whether it keeps a certificate or issues one (`LeafStage.Leaves.recordsHostnames`). Another
stage does not keep a certificate beside which a different text is recorded, whatever else the secret
holds, for any authority and at any time (`LeafStage.replaces_of_recordsHostnames`). Since the text tells
the service, a stage for one service replaces the certificate of any other
(`hostnames_identified_by_text`).
-/

namespace CertKeeper

/-- The text of host names is recorded on a secret. -/
def Secret.RecordsHostnames (s : Secret) (hostnames : List String) : Prop :=
  s.annotationAt? AnnotationKey.hostnames = some (hostnamesText hostnames)

namespace LeafStage

variable {r : LeafStage} {ca : Authority} {trusted : List TrustedCertificate} {w w₁ : World} {s : Secret}
variable {hostnames hostnames' : List String}

/-- A stage does not keep the certificate of a secret. For any authority and at any time it has a reason
to replace it, and wherever it goes through with this copy of the secret, it has issued a certificate for
its own request and has stored that in the copy. -/
structure Replaces (r : LeafStage) (s : Secret) : Prop where
  reason : ∀ ca now, ∃ reason, r.reason? s ca now = .ok (some reason)
  stored : ∀ ca trusted w w₁ w₂,
    World.run (Procedure.current .secret r.known r.ref) w = (.ok (some s), w₁) →
    World.run (r.ensure ca trusted) w = (.ok (), w₂) →
      ∃ issued, r.Issues ca w issued ∧ ∃ stored, w₂.Landed r.ref.ns (r.filled s ca trusted issued) stored

/-- A stage that always has a reason to replaces the certificate. -/
theorem replaces_of_reason (h : ∀ ca now, ∃ reason, r.reason? s ca now = .ok (some reason)) :
  r.Replaces s
  := by
  constructor
  · apply h
  · intro ca trusted w w₁ w₂ hcopy hrun
    obtain ⟨stored, hleaves⟩ := (leads_ensure r ca trusted w).of_run hrun
    cases hleaves with
    | kept hfound hserves =>
      cases hcopy.symm.trans hfound
      obtain ⟨reason, hreason⟩ := h ca w.clock
      cases hreason.symm.trans hserves
    | stored hfound _ hissues hlanded =>
      cases hcopy.symm.trans hfound
      exact ⟨_, hissues, stored, hlanded⟩

/-- Host names with another text are a reason to replace a certificate, unless there is one before. -/
theorem replaces_of_recordsHostnames (hrequest : r.request = .serving hostnames)
    (hs : s.RecordsHostnames hostnames') (hother : hostnamesText hostnames' ≠ hostnamesText hostnames) :
  r.Replaces s
  := by
  apply replaces_of_reason
  intro ca now
  cases hmismatch : r.mismatch? s ca with
  | some reason =>
    refine ⟨reason, ?_⟩
    rw [reason?, hmismatch]
  | none =>
    have hrecorded := (of_mismatch?_eq_none hmismatch).2.2 (hostnamesText hostnames) (by rw [hrequest]; rfl)
    exact absurd (Option.some.inj (hs.symm.trans hrecorded)) hother

/-- The host names of a request are recorded on what a stage leaves behind. -/
theorem Leaves.recordsHostnames (h : r.Leaves ca trusted w w₁ s)
    (hrequest : r.request = .serving hostnames) :
  s.RecordsHostnames hostnames
  := by
  have hhostnames : hostnames? r.request = some (hostnamesText hostnames) := by
    rw [hrequest]
    rfl
  cases h with
  | kept _ hserves => apply (of_mismatch?_eq_none (of_reason?_eq_none hserves).1).2.2 _ hhostnames
  | stored _ _ _ hlanded =>
    obtain ⟨-, store, rfl⟩ := hlanded
    rw [Secret.RecordsHostnames, Object.annotationAt?_stamped]
    apply hostnames_filled hhostnames

end LeafStage

/-- The text of host names identifies them. For names without commas, of which there is at least one, it
tells which names there are, whatever their order and their repetitions. For services of any name in one
namespace it tells the service. So once a leaf stage has gone through for a service, a stage for another
service does not keep the certificate, neither of what the first stage has left behind nor of any other
secret with the same host names recorded. -/
theorem hostnames_identified_by_text :
  (∀ names names' : List String, names ≠ [] → names' ≠ [] →
    (∀ name ∈ names ++ names', ',' ∉ name.toList) →
      (hostnamesText names = hostnamesText names' ↔ ∀ name, name ∈ names ↔ name ∈ names'))
    ∧ (∀ service service' ns : String,
      hostnamesText (serviceHostnames service ns) = hostnamesText (serviceHostnames service' ns) →
        service = service')
    ∧ ∀ (r : LeafStage) (service ns : String), r.request = .serving (serviceHostnames service ns) →
      ∀ ca trusted w w₁, World.run (r.ensure ca trusted) w = (.ok (), w₁) →
        ∃ s, r.Leaves ca trusted w w₁ s
          ∧ ∀ (r' : LeafStage) (service' : String) (s' : Secret),
            r'.request = .serving (serviceHostnames service' ns) → service ≠ service' →
            s'.annotationAt? AnnotationKey.hostnames = s.annotationAt? AnnotationKey.hostnames →
              r'.Replaces s'
  := by
  refine ⟨?_, ?_, ?_⟩
  · intro names names' hne hne' hcomma
    apply hostnamesText_eq_iff hne hne'
    · intro name hname
      apply hcomma name (List.mem_append_left _ hname)
    · intro name hname
      apply hcomma name (List.mem_append_right _ hname)
  · intro service service' ns h
    apply serviceHostnames_injective h
  · intro r service ns hrequest ca trusted w w₁ hrun
    obtain ⟨s, hleaves⟩ := (LeafStage.leads_ensure r ca trusted w).of_run hrun
    refine ⟨s, hleaves, ?_⟩
    intro r' service' s' hrequest' hother hsame
    have hs' : s'.RecordsHostnames (serviceHostnames service ns) :=
      hsame.trans (hleaves.recordsHostnames hrequest)
    apply LeafStage.replaces_of_recordsHostnames hrequest' hs'
    intro htext
    exact hother (serviceHostnames_injective htext)

/-- Repeated names do not matter, and an empty name does. The service `api` is told from one whose name has
commas and continues it, and a stage for that one replaces the certificate that was issued for `api`. -/
theorem hostnames_identified_by_text_of_commas :
  hostnamesText ["web", "api", "web"] = hostnamesText ["api", "web"]
    ∧ hostnamesText ["api", ""] ≠ hostnamesText ["api"]
    ∧ hostnamesText (serviceHostnames "api" "pki") ≠ hostnamesText (serviceHostnames "api,api.pki" "pki")
    ∧ ∃ (r r' : LeafStage) (ca : Authority) (w w₁ w₂ : World) (s stored : Secret)
      (issued : IssuedCertificate),
      r.request = .serving (serviceHostnames "api" "pki")
      ∧ r'.request = .serving (serviceHostnames "api,api.pki" "pki")
      ∧ World.run (r.ensure ca [ca.trusted]) w = (.ok (), w₁)
      ∧ w₁.store.find? .secret ⟨"pki", s.name⟩ = some s ∧ r'.known = some s
      ∧ World.run (r'.ensure ca [ca.trusted]) w₁ = (.ok (), w₂)
      ∧ r'.Issues ca w₁ issued ∧ w₂.Landed "pki" (r'.filled s ca [ca.trusted] issued) stored
  := by
  refine ⟨?_, ?_, ?_, ?_⟩
  · apply (hostnames_identified_by_text.1 _ _ (by decide) (by decide) (by decide)).mpr
    intro name
    simp only [List.mem_cons, List.not_mem_nil, or_false]
    tauto
  · intro h
    have hsame := (hostnames_identified_by_text.1 _ _ (by decide) (by decide) (by decide)).mp h
    simpa using hsame ""
  · intro h
    have hsame := hostnames_identified_by_text.2.1 _ _ _ h
    exact absurd hsame (by decide)
  · obtain ⟨policy, hpossible⟩ : ∃ policy : Policy, Validity.Possible (.ofSeconds 0) policy.lifetime := by
      refine ⟨⟨⟨5 * nanosPerSecond, by decide⟩, ⟨3 * nanosPerSecond, by decide⟩⟩, ?_⟩
      exact Validity.possible_ofSeconds (by decide)
    have hv := Validity.starting_eq hpossible
    obtain ⟨ca, hca⟩ : ∃ ca, Authority.generate "pki_ca@0" _ (KeyPair.generate 0) = .ok ca := by
      apply Authority.exists_generate_of_size hv
      decide
    obtain ⟨w, s₀, hclock, hcurrent, hblank⟩ := World.exists_blank "leaf" (.ofSeconds 0)
    have hwatched : (NameSet.ofNames ["pki"]).contains "pki" = true := by decide
    -- The first stage finds a secret without content.
    let r : LeafStage := ⟨⟨"pki", "leaf"⟩, policy, .serving (serviceHostnames "api" "pki"), none⟩
    obtain ⟨cert, hcert⟩ : ∃ cert, r.Issues ca w cert := by
      have hsize : "pki_ca@0".utf8ByteSize + "api".utf8ByteSize
          + AltName.room (serviceHostnames "api" "pki") ≤ 18000000000000000000 := by decide
      unfold LeafStage.Issues
      rw [hclock]
      apply (Authority.exists_sign_of_generate hv hca rfl rfl hpossible hsize).2
    obtain ⟨w₁, hrun, hdrawn, hcalm, hclock₁⟩ :=
      LeafStage.exists_run_of_blank hcurrent hblank hcert [ca.trusted]
    obtain ⟨s, hleaves, hreplaces⟩ := hostnames_identified_by_text.2.2 r "api" "pki" rfl _ _ _ _ hrun
    have hlive : w₁.store.find? .secret ⟨"pki", s.name⟩ = some s := by
      obtain ⟨_, _, _, hlive, _, rfl⟩ := hleaves.of_drawn hdrawn
      apply hlive
    -- The second one finds what the first one has left behind.
    let r' : LeafStage :=
      ⟨⟨"pki", "leaf"⟩, policy, .serving (serviceHostnames "api,api.pki" "pki"), some s⟩
    have hreplaced : r'.Replaces s := hreplaces r' "api,api.pki" s rfl (by decide) rfl
    obtain ⟨reason, hreason⟩ := hreplaced.reason ca w₁.clock
    obtain ⟨cert', hcert'⟩ : ∃ cert', r'.Issues ca w₁ cert' := by
      have hsize : "pki_ca@0".utf8ByteSize + "api,api.pki".utf8ByteSize
          + AltName.room (serviceHostnames "api,api.pki" "pki") ≤ 18000000000000000000 := by decide
      unfold LeafStage.Issues
      rw [hclock₁, hclock]
      apply (Authority.exists_sign_of_generate hv hca rfl rfl hpossible hsize).2
    have hcurrent' : s.Current r'.known r'.ref (NameSet.ofNames ["pki"]) w₁ :=
      Secret.current_of_live hcalm hwatched hlive w₁.clock
    obtain ⟨w₂, hrun', -⟩ := LeafStage.exists_run_of_reason hcurrent' hreason hcert' [ca.trusted]
    obtain ⟨issued, hissued, stored, hlanded⟩ := hreplaced.stored _ _ _ _ _ rfl hrun'
    exact ⟨r, r', ca, w, w₁, w₂, s, stored, issued, rfl, rfl, hrun, hlive, rfl, hrun', hissued, hlanded⟩

end CertKeeper
