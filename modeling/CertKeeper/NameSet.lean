import CertKeeper.Dict

/-!
# Sets of names

A `NameSet` is a finite set of texts, listed in increasing order by `NameSet.names`.
-/

namespace CertKeeper

/-- A finite set of texts. -/
abbrev NameSet := Dict String Unit

namespace NameSet

/-- The set of the texts of a list. -/
def ofNames (names : List String) : NameSet := Dict.ofList (names.map (fun name => (name, ())))

/-- The texts of a set in increasing order. -/
def names (s : NameSet) : List String := s.keys

theorem contains_foldl_insert (s : NameSet) (names : List String) (name : String) :
  ((names.map (fun name => (name, ()))).foldl (fun s p => s.insert p.1 p.2) s).contains name
    ↔ s.contains name ∨ name ∈ names
  := by
  induction names generalizing s with
  | nil => simp
  | cons first rest ih =>
    rw [List.map_cons, List.foldl_cons, ih, List.mem_cons, Dict.contains, Dict.get?_insert]
    split
    · rename_i heq
      simp [Std.LawfulEqCmp.eq_of_compare heq]
    · rename_i hne
      have : name ≠ first := fun heq => hne (heq ▸ Std.ReflCmp.compare_self)
      simp [Dict.contains, this]

/-- The set of the texts of a list has these texts. -/
theorem contains_ofNames (names : List String) (name : String) :
  (ofNames names).contains name ↔ name ∈ names
  := by
  have hempty : ¬ (Dict.empty : NameSet).contains name := by simp [Dict.contains]
  rw [ofNames, Dict.ofList, contains_foldl_insert]
  simp [hempty]

end NameSet

end CertKeeper
