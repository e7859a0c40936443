/-!
# References to objects

A `ResourceRef` names an object of a kind by its namespace and its name. References are
ordered by namespace and then by name.
-/

namespace CertKeeper

/-- The namespace and the name of an object. -/
structure ResourceRef where
  ns : String
  name : String
  deriving DecidableEq

namespace ResourceRef

/-- The text of a reference. -/
def text (r : ResourceRef) : String := r.ns ++ "/" ++ r.name

/-- The order by namespace and then by name. -/
def order : ResourceRef → ResourceRef → Ordering :=
  compareLex (compareOn ResourceRef.ns) (compareOn ResourceRef.name)

instance : Ord ResourceRef := ⟨order⟩

instance : Std.TransOrd ResourceRef :=
  inferInstanceAs (Std.TransCmp (compareLex (compareOn ResourceRef.ns) (compareOn ResourceRef.name)))

instance : Std.LawfulEqOrd ResourceRef where
  compare_self := Std.ReflCmp.compare_self
  eq_of_compare {r s} h := by
    have h : compareLex (compareOn ResourceRef.ns) (compareOn ResourceRef.name) r s = .eq := h
    rw [compareLex_eq_eq] at h
    obtain ⟨rns, rname⟩ := r
    obtain ⟨sns, sname⟩ := s
    have hns : rns = sns := Std.LawfulEqCmp.eq_of_compare h.1
    have hname : rname = sname := Std.LawfulEqCmp.eq_of_compare h.2
    rw [hns, hname]

end ResourceRef

end CertKeeper
