import CertKeeper.Definition.Record
import CertKeeper.Definition.Sample
import CertKeeper.Encoding.Pem
import CertKeeper.Certificate.Authority
import CertKeeper.Certificate.Info
import CertKeeper.Cluster.World
import CertKeeper.Key.Private
import CertKeeper.Main
import CertKeeper.Manager.Caches
import CertKeeper.Manager.Diagnostics
import CertKeeper.Manager.Keeper
import CertKeeper.Manager.Rehearsal
import CertKeeper.Manager.Settings
import CertKeeper.Manager.Sync
import CertKeeper.Manager.WatchedNamespaces
import CertKeeper.Program
import CertKeeper.Rotation.Hostnames
import CertKeeper.Rotation.Marks
import CertKeeper.Proofs.Manager.Recovery
import CertKeeper.Proofs.Manager.Trust
import CertKeeper.Proofs.Manager.PolicyChange
import CertKeeper.Proofs.Manager.Footprint
import CertKeeper.Proofs.Manager.Identity
import CertKeeper.Proofs.Manager.FailStop
import CertKeeper.Proofs.Manager.StoredAuthority
import CertKeeper.Proofs.Manager.PolicyDrift
import CertKeeper.Proofs.Manager.Lifespan
import CertKeeper.Proofs.Cluster.Pair
import CertKeeper.Proofs.Manager.ReadThrough
import CertKeeper.Proofs.Cluster.Uncached
import CertKeeper.Proofs.Rotation.Refusal
import CertKeeper.Proofs.Cluster.Lag
import CertKeeper.Proofs.Manager.Contention
import CertKeeper.Proofs.Certificate.Twin
import CertKeeper.Proofs.Manager.Abreast
import CertKeeper.Proofs.Manager.PlanAbreast
import CertKeeper.Proofs.Manager.Order
import CertKeeper.Proofs.Manager.Report
import CertKeeper.Proofs.Certificate.Bundle
import CertKeeper.Proofs.Definition.File
import CertKeeper.Proofs.Rotation.Usable
import CertKeeper.Proofs.Rotation.Schedule
import CertKeeper.Proofs.Certificate.Renewal
import CertKeeper.Proofs.Cluster.Landing
import CertKeeper.Proofs.Manager.Renewal
import CertKeeper.Proofs.Manager.ServiceChange
import CertKeeper.Proofs.Rotation.Outcome
import CertKeeper.Proofs.Rotation.Threshold
import CertKeeper.Proofs.Cluster.Coherence
import CertKeeper.Proofs.Manager.Settings
import CertKeeper.Proofs.Manager.Overflow
