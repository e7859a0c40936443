import CertKeeper.Manager.Sync
import CertKeeper.Proofs.Program.Transcript
import CertKeeper.Proofs.Rotation.Bundle
import CertKeeper.Proofs.Rotation.Refusal

/-!
# What stops the work of a pass

The `work` of a pass on a definition stops with the error of one of its calls, for a fault of what it
works on, or because the lifetime of a certificate overflows that it asks for. A description of stops
that `Covers` these describes all stops of the work, whatever the calls are answered
(`Manager.stopsOnly_work`).
-/

namespace CertKeeper

variable {α β : Type}

/-- The error says that a definition is invalid or that a namespace is not watched. -/
def Error.isRefusal : Error → Bool
  | invalidDefinition _ | noCache _ => true
  | _ => false

/-- A call on the store failed. -/
inductive Request.Fails : (r : Request) → r.Answer → Error → Prop where
  | get {k : Kind} {ref : ResourceRef} {e : Error} : Fails (.get k ref) (.error e) e
  | create {k : Kind} {ns : String} {o : Object k} {e : Error} : Fails (.create k ns o) (.error e) e
  | update {k : Kind} {ns : String} {o : Object k} {e : Error} : Fails (.update k ns o) (.error e) e

/-- What was asked of the surroundings and what they answered. -/
abbrev Exchange := Program.Exchange Request.Answer

/-! ### Descriptions of stops -/

namespace Procedure

/-- However it is answered, a procedure stops only as it may after what it was told. -/
def StopsOnly (may : Stop → List Exchange → Prop) (p : Procedure α) : Prop :=
  ∀ past, p.Safe Program.minutes (fun _ => True) (fun _ _ => True) may past

/-- A procedure may stop with the error of a call, for a fault, and for the overflow of such a lifetime
from a time that the clock has shown. -/
structure Covers (lifetimes : Duration → Prop) (may : Stop → List Exchange → Prop) : Prop where
  call : ∀ {r : Request} {answer : r.Answer} {e : Error}, r.Fails answer e →
    ∀ past, may (.error e) (⟨r, answer⟩ :: past)
  fault : ∀ {e : Error}, e.IsFault → ∀ past, may (.error e) past
  overflow : ∀ {lifetime : Duration} {now : Instant} {past : List Exchange}, lifetimes lifetime →
    (⟨.clock, now⟩ : Exchange) ∈ past → Validity.starting now lifetime = .error .overflow →
    may .overflow past

variable {may : Stop → List Exchange → Prop} {lifetimes : Duration → Prop}

theorem stopsOnly_pure (a : α) :
  StopsOnly may (pure a)
  := fun _ => safe_pure trivial

theorem StopsOnly.bind {p : Procedure α} {f : α → Procedure β} (h : p.StopsOnly may)
    (hf : ∀ a, (f a).StopsOnly may) :
  (p >>= f).StopsOnly may
  := by
  intro past
  apply safe_bind
  apply safe_mono (h past)
  intro a past' _
  apply hf a

theorem stopsOnly_ask (r : Request) :
  (ask r).StopsOnly may
  := by
  intro past
  apply safe_ask
  intro answer past' _
  exact ⟨trivial, trivial⟩

/-- A call may be followed by what depends on the minutes of it. -/
theorem stopsOnly_call {r : Request} {f : r.Answer → Procedure α}
    (hf : ∀ answer past, (f answer).Safe Program.minutes (fun _ => True) (fun _ _ => True) may
      (⟨r, answer⟩ :: past)) :
  (ask r >>= f).StopsOnly may
  := by
  intro past
  apply safe_bind
  apply safe_ask
  rintro answer _ rfl
  exact ⟨trivial, hf answer past⟩

theorem stopsOnly_forM {l : List α} {f : α → Procedure Unit} (hf : ∀ a ∈ l, (f a).StopsOnly may) :
  (l.forM f).StopsOnly may
  := by
  induction l with
  | nil => apply stopsOnly_pure
  | cons a l ih =>
    apply (hf a List.mem_cons_self).bind
    intro _
    apply ih
    intro b hb
    apply hf b (List.mem_cons_of_mem _ hb)

namespace Covers

variable (hm : Covers lifetimes may)
include hm

/-- A computation may be carried out if it overflows only where a lifetime does. -/
theorem safe_ofComputation {r : Except Stop α} {ok : α → List Exchange → Prop} {overflows : Prop}
    {past : List Exchange} (hr : FaultsOnly overflows r) (hover : overflows → may .overflow past)
    (hok : ∀ a, r = .ok a → ok a past) :
  (ofComputation r).Safe Program.minutes (fun _ => True) ok may past
  := by
  apply Procedure.safe_ofComputation hok
  intro stop hstop
  cases stop with
  | error e => apply hm.fault (hr _ hstop)
  | overflow => apply hover (hr _ hstop)

theorem ofComputation {r : Except Stop α} (hr : FaultsOnly False r) :
  (ofComputation r).StopsOnly may
  := by
  intro past
  apply hm.safe_ofComputation hr
  · exact False.elim
  · exact fun _ _ => trivial

theorem ofResult {r : Except Error α} (hr : FailsWith Error.IsFault r) :
  (ofResult r).StopsOnly may
  := by
  intro past
  apply safe_ofResult
  · exact fun _ _ => trivial
  · intro e he
    apply hm.fault (hr e he)

variable {k : Kind} {ref : ResourceRef} {ns : String} {o : Object k}

theorem get :
  (get k ref).StopsOnly may
  := by
  apply stopsOnly_call
  intro answer past
  cases answer with
  | ok o => exact safe_pure trivial
  | error e => exact safe_fail (hm.call .get past)

theorem create :
  (create k ns o).StopsOnly may
  := by
  apply stopsOnly_call
  intro answer past
  cases answer with
  | ok o => exact safe_pure trivial
  | error e => exact safe_fail (hm.call .create past)

theorem update :
  (update k ns o).StopsOnly may
  := by
  apply stopsOnly_call
  intro answer past
  cases answer with
  | ok o => exact safe_pure trivial
  | error e => exact safe_fail (hm.call .update past)

theorem find :
  (find k ref).StopsOnly may
  := by
  apply stopsOnly_call
  intro answer past
  cases answer with
  | ok o => exact safe_pure trivial
  | error e =>
    simp only
    split
    · exact safe_pure trivial
    · exact safe_fail (hm.call .get past)

theorem current (known : Option (Object k)) :
  (current k known ref).StopsOnly may
  := by
  cases known with
  | some o => apply stopsOnly_pure
  | none =>
    apply (stopsOnly_ask _).bind
    intro copy
    cases copy with
    | some o => apply stopsOnly_pure
    | none => apply hm.find

theorem store {secret : Secret} :
  (store ns secret).StopsOnly may
  := by
  unfold Procedure.store
  split
  · apply hm.update
  · apply stopsOnly_call
    intro answer past
    cases answer with
    | ok stored => exact safe_pure trivial
    | error e =>
      simp only
      split
      · apply hm.get.bind
        intro live
        apply hm.update
      · exact safe_fail (hm.call .create past)

end Covers

end Procedure

/-! ### The work of a pass -/

namespace Manager

open Procedure

/-- What a pass does for a definition once it is known that all its namespaces are watched. -/
def work (p : Plan) : Procedure Unit := do
  let prepare (ref : ResourceRef) (policy : Policy) : Procedure Secret := do
    let secret ← ensureSecret ref
    ensurePolicy secret ref policy
  let secret ← prepare p.1.signer p.1.signerPolicy
  let ca ← SignerRequest.ensure ⟨p.1.signer, p.1.signerPolicy, some secret⟩
  match p.2 with
  | .signer => return ()
  | .signerAndBundle bundle =>
    let _ ← Bundle.ensure bundle ca
  | .full bundle leaf =>
    let trusted ← Bundle.ensure bundle ca
    let secret ← prepare leaf.secret leaf.policy
    LeafStage.ensure ⟨leaf.secret, leaf.policy, leafRequest leaf, some secret⟩ ca trusted

/-- The lifetimes that the definitions of a list ask for the certificate of a secret. -/
inductive Lasts (definitions : List Definition) : ResourceRef → Duration → Prop where
  | signer {d : Definition} : d ∈ definitions → Lasts definitions d.signer d.signerPolicy.lifetime
  | leaf {d : Definition} {bundle : ResourceRef} {leaf : Leaf} : d ∈ definitions →
      d.stages = .ok (.full bundle leaf) → Lasts definitions leaf.secret leaf.policy.lifetime

variable {may : Stop → List Exchange → Prop} {lifetimes : Duration → Prop}
variable (hm : Covers lifetimes may)
include hm

theorem stopsOnly_ensureSecret (ref : ResourceRef) :
  (ensureSecret ref).StopsOnly may
  := by
  apply (stopsOnly_ask _).bind
  intro copy
  cases copy with
  | some secret => apply stopsOnly_pure
  | none =>
    apply stopsOnly_call
    intro answer past
    cases answer with
    | ok secret => exact safe_pure trivial
    | error e =>
      simp only
      split
      · apply hm.get
      · exact safe_fail (hm.call .create past)

theorem stopsOnly_ensurePolicy (secret : Secret) (ref : ResourceRef) (policy : Policy) :
  (ensurePolicy secret ref policy).StopsOnly may
  := by
  apply (stopsOnly_ask _).bind
  intro now
  split
  · apply stopsOnly_pure
  · apply hm.update

/-- The validity of a signer is computed right after a look at the clock. -/
theorem stopsOnly_ensureSigner {r : SignerRequest} (hlifetime : lifetimes r.policy.lifetime) :
  r.ensure.StopsOnly may
  := by
  apply (hm.current _).bind
  intro secret
  apply (stopsOnly_ask _).bind
  intro now
  apply (hm.ofComputation (SignerRequest.faultsOnly_check _ _ _)).bind
  intro result
  cases result with
  | ok ca => apply stopsOnly_pure
  | error reason =>
    apply stopsOnly_call
    intro now past
    apply safe_bind
    apply hm.safe_ofComputation (Validity.faultsOnly_starting _ _)
    · apply hm.overflow hlifetime List.mem_cons_self
    · intro validity _
      apply (stopsOnly_ask _).bind
      intro key
      apply (hm.ofResult (Authority.fault_generate _ _ _)).bind
      intro ca
      apply hm.store.bind
      intro stored
      apply (stopsOnly_ask _).bind
      intro _
      apply stopsOnly_pure

theorem stopsOnly_publish (ref : ResourceRef) (ca : Authority) (copy : Option ConfigMap) :
  (Bundle.publish ref ca copy).StopsOnly may
  := by
  have hreported : ∀ (stored : ConfigMap) reason action note (certs : List TrustedCertificate),
      (do
        Procedure.publish stored reason action note
        return certs : Procedure (List TrustedCertificate)).StopsOnly may := by
    intro stored reason action note certs
    apply (stopsOnly_ask _).bind
    intro _
    apply stopsOnly_pure
  apply (stopsOnly_ask _).bind
  intro now
  simp only
  split
  · apply stopsOnly_pure
  · cases copy with
    | some m =>
      apply hm.update.bind
      intro stored
      apply hreported
    | none =>
      apply hm.create.bind
      intro stored
      apply hreported

theorem stopsOnly_ensureBundle (ref : ResourceRef) (ca : Authority) :
  (Bundle.ensure ref ca).StopsOnly may
  := by
  rw [Bundle.ensure_eq]
  apply (hm.current _).bind
  intro copy past
  apply safe_tryCatch
  apply safe_weaken (stopsOnly_publish hm ref ca copy past)
  · exact fun _ _ h => h
  · -- The first stop is handed on or followed by the second attempt.
    intro stop past hmay
    cases stop with
    | overflow => apply safe_throw hmay
    | error e =>
      simp only [Bundle.retry]
      split
      · apply hm.find.bind
        intro live
        apply stopsOnly_publish hm
      · apply safe_throw hmay

/-- The validity of a leaf is computed twice from one look at the clock. -/
theorem stopsOnly_issue {r : LeafStage} (hlifetime : lifetimes r.policy.lifetime) (ca : Authority) :
  (r.issue ca).StopsOnly may
  := by
  apply stopsOnly_call
  intro now past
  apply safe_bind
  apply hm.safe_ofComputation (Authority.faultsOnly_prepare _ _ _ _)
  · apply hm.overflow hlifetime List.mem_cons_self
  · intro _ _
    apply safe_bind
    apply safe_ask
    rintro key _ rfl
    refine ⟨trivial, ?_⟩
    apply hm.safe_ofComputation (Authority.faultsOnly_sign _ _ _ _ _)
    · apply hm.overflow hlifetime (List.mem_cons_of_mem _ List.mem_cons_self)
    · exact fun _ _ => trivial

theorem stopsOnly_ensureLeaf {r : LeafStage} (hlifetime : lifetimes r.policy.lifetime) (ca : Authority)
    (bundle : List TrustedCertificate) :
  (r.ensure ca bundle).StopsOnly may
  := by
  apply (hm.current _).bind
  intro secret
  apply (stopsOnly_ask _).bind
  intro now
  apply (hm.ofComputation (LeafStage.faultsOnly_reason? _ _ _ _)).bind
  intro reason
  cases reason with
  | none => apply stopsOnly_pure
  | some reason =>
    apply (stopsOnly_issue hm hlifetime ca).bind
    intro issued
    apply hm.store.bind
    intro stored
    apply stopsOnly_ask

/-- The work on a definition stops with the error of a call, for a fault, or for the overflow of a
lifetime that the definition asks for. -/
theorem stopsOnly_work {definitions : List Definition} {p : Plan} (hd : p.1 ∈ definitions)
    (hstages : p.1.stages = .ok p.2)
    (hlifetimes : ∀ ref lifetime, Lasts definitions ref lifetime → lifetimes lifetime) :
  (work p).StopsOnly may
  := by
  obtain ⟨d, kept⟩ := p
  have hprepare : ∀ (ref : ResourceRef) (policy : Policy), (do
      let secret ← ensureSecret ref
      ensurePolicy secret ref policy).StopsOnly may := by
    intro ref policy
    apply (stopsOnly_ensureSecret hm ref).bind
    intro secret
    apply stopsOnly_ensurePolicy hm
  apply (hprepare _ _).bind
  intro secret
  apply (stopsOnly_ensureSigner hm (hlifetimes _ _ (.signer hd))).bind
  intro ca
  cases kept with
  | signer => apply stopsOnly_pure
  | signerAndBundle bundle =>
    apply (stopsOnly_ensureBundle hm _ _).bind
    intro _
    apply stopsOnly_pure
  | full bundle leaf =>
    apply (stopsOnly_ensureBundle hm _ _).bind
    intro trusted
    apply (hprepare _ _).bind
    intro secret
    apply stopsOnly_ensureLeaf hm (hlifetimes _ _ (.leaf hd hstages))

end Manager

end CertKeeper
