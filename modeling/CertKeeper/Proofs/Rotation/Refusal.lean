import CertKeeper.Proofs.Program.Result
import CertKeeper.Proofs.Rotation.Threshold
import CertKeeper.Rotation.Leaf
import CertKeeper.Rotation.Signer

/-!
# Faults and refusals

A computation stops for a fault of what it works on. Besides, it may overflow where a lifetime is added
to the time, and nowhere else: whether a certificate is due is computed without any overflow. No call is
refused in a computation (`FaultsOnly.unrefused`), so the refusal that a stage stops with is the answer
to one of its calls.
-/

namespace CertKeeper

variable {α : Type}

/-- A call was refused. -/
def Error.IsRefusal : Error → Prop
  | api _ => True
  | _ => False

/-- A call was refused, and that was the end. -/
def Stop.IsRefusal : Stop → Prop
  | error cause => cause.IsRefusal
  | overflow => False

/-- No refusal is the cause for which a computation stops. -/
abbrev Unrefused {α : Type} (x : Except Stop α) : Prop := FailsWith (fun e => ¬ e.IsRefusal) x

/-- What is worked on is at fault: a certificate, a key, or what a certificate is requested for. -/
def Error.IsFault : Error → Prop
  | certificate _ | invalidCertificate _ | other _ => True
  | _ => False

/-- A fault, or an overflow if that may be. -/
def Stop.IsFault (overflows : Prop) : Stop → Prop
  | error cause => cause.IsFault
  | overflow => overflows

/-- A computation stops for a fault, or it overflows if that may be. -/
abbrev FaultsOnly (overflows : Prop) (x : Except Stop α) : Prop := FailsWith (Stop.IsFault overflows) x

theorem Error.IsFault.not_isRefusal {e : Error} (h : e.IsFault) :
  ¬ e.IsRefusal
  := by
  cases e with
  | api failure => cases h
  | _ => exact id

theorem FaultsOnly.unrefused {overflows : Prop} {x : Except Stop α} (h : FaultsOnly overflows x) :
  Unrefused x
  := by
  intro stop hstop
  cases stop with
  | error cause => apply Error.IsFault.not_isRefusal (h _ hstop)
  | overflow => exact id

theorem faultsOnly_mapError {overflows : Prop} {x : Except Error α} (h : FailsWith Error.IsFault x) :
  FaultsOnly overflows (x.mapError Stop.error)
  := FailsWith.mapError h (fun _ he => he)

theorem Validity.faultsOnly_checkTime {overflows : Prop} (seconds : Int) :
  FaultsOnly overflows (checkTime seconds)
  := by
  unfold checkTime
  split
  · apply failsWith_ok
  · exact failsWith_error trivial

theorem Validity.faultsOnly_starting (now : Instant) (lifetime : Duration) :
  FaultsOnly (starting now lifetime = .error .overflow) (starting now lifetime)
  := by
  have hfaults : FaultsOnly True (starting now lifetime) := by
    simp only [starting]
    split
    · exact failsWith_error trivial
    · split
      · exact failsWith_error trivial
      · apply FailsWith.bind (faultsOnly_checkTime _)
        intro _
        apply FailsWith.bind (faultsOnly_checkTime _)
        intro _
        split
        · exact failsWith_error trivial
        · apply failsWith_ok
  intro stop hstop
  cases stop with
  | error cause => exact hfaults _ hstop
  | overflow => exact hstop

theorem LeafRequest.fault_commonName (request : LeafRequest) :
  FailsWith Error.IsFault request.commonName
  := by
  unfold commonName
  split
  · split
    · exact failsWith_error trivial
    · apply failsWith_ok
  · apply failsWith_ok

theorem LeafRequest.fault_checkHostnames (request : LeafRequest) :
  FailsWith Error.IsFault request.checkHostnames
  := by
  unfold checkHostnames
  split
  · apply failsWith_ok
  · exact failsWith_error trivial

namespace Authority

theorem fault_ofPem (certPem keyPem : String) :
  FailsWith Error.IsFault (ofPem certPem keyPem)
  := by
  unfold ofPem
  split
  · exact failsWith_error trivial
  · split
    · exact failsWith_error trivial
    · exact failsWith_error trivial
    · split
      · apply failsWith_ok
      · exact failsWith_error trivial

theorem fault_generate (commonName : String) (v : Validity) (key : KeyPair) :
  FailsWith Error.IsFault (generate commonName v key)
  := fault_ofPem _ _

theorem fault_signer (ca : Authority) :
  FailsWith Error.IsFault ca.signer
  := by
  unfold signer
  split
  · exact failsWith_error trivial
  · split
    · exact failsWith_error trivial
    · split
      · exact failsWith_error trivial
      · apply failsWith_ok

variable (ca : Authority) (request : LeafRequest) (now : Instant) (lifetime : Duration)

theorem faultsOnly_prepare :
  FaultsOnly (Validity.starting now lifetime = .error .overflow) (ca.prepare request now lifetime)
  := by
  apply FailsWith.bind (faultsOnly_mapError request.fault_commonName)
  intro commonName
  apply FailsWith.bind (Validity.faultsOnly_starting now lifetime)
  intro v
  apply FailsWith.bind (faultsOnly_mapError request.fault_checkHostnames)
  intro _
  apply FailsWith.bind (faultsOnly_mapError ca.fault_signer)
  intro signer
  apply failsWith_ok

theorem faultsOnly_sign (key : KeyPair) :
  FaultsOnly (Validity.starting now lifetime = .error .overflow) (ca.sign request now lifetime key)
  := by
  apply FailsWith.bind (faultsOnly_prepare ca request now lifetime)
  intro prepared
  have hread : ∀ bytes, FailsWith (fun _ => True) (CertificateInfo.ofOctets bytes) := fun _ _ _ => trivial
  refine FailsWith.bind (FailsWith.mapError (hread _) ?_) ?_
  · intro fault _
    trivial
  · intro info
    apply failsWith_ok

end Authority

theorem Metadata.faultsOnly_due? (m : Metadata) (refresh : Duration) (now : Instant) :
  FaultsOnly False (m.due? refresh now)
  := by
  obtain ⟨start, -, -, hdue⟩ := m.exists_dueFrom? refresh
  obtain ⟨reason?, hreason, -⟩ := hdue now
  rw [hreason]
  apply failsWith_ok

theorem SignerRequest.faultsOnly_check (r : SignerRequest) (secret : Secret) (now : Instant) :
  FaultsOnly False (r.check secret now)
  := by
  unfold check
  split
  · apply failsWith_ok
  · apply FailsWith.bind (secret.metadata.faultsOnly_due? r.policy.refresh now)
    intro reason
    split
    · apply failsWith_ok
    · apply failsWith_ok

theorem LeafStage.faultsOnly_reason? (r : LeafStage) (secret : Secret) (ca : Authority) (now : Instant) :
  FaultsOnly False (r.reason? secret ca now)
  := by
  unfold reason?
  split
  · apply failsWith_ok
  · apply FailsWith.bind (secret.metadata.faultsOnly_due? r.policy.refresh now)
    intro reason
    apply failsWith_ok

end CertKeeper
