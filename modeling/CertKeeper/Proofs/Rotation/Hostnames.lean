import CertKeeper.Rotation.Hostnames
import Mathlib.Data.String.Basic

/-!
# The text of host names

Two lists of names make the same set if they have the same members (`NameSet.ofNames_eq_iff`), and a set
is given back by its listing. Names without commas can be read off the text in which they are joined by
commas, as long as there is a name at all. So the text of such host names tells their set, and nothing
else about them (`hostnamesText_eq_iff`).

The host names of a service may have commas, but a set of names lists names that are given in increasing
order in that order (`NameSet.names_ofNames`). The host names of a service are such a list, since each
of them continues the one before. So the length of their text gives the service back
(`serviceHostnames_injective`).
-/

namespace CertKeeper

namespace Dict

variable {α β : Type} [Ord α] [Std.TransOrd α]

/-- What has the greatest key is put at the end. -/
theorem put_of_lt {k : α} (v : β) {l : List (α × β)} (h : ∀ p ∈ l, compare p.1 k = .lt) :
  put k v l = l ++ [(k, v)]
  := by
  induction l with
  | nil => rfl
  | cons p l ih =>
    have hgt : compare k p.1 = .gt := Std.OrientedCmp.gt_iff_lt.mpr (h p List.mem_cons_self)
    simp only [put, hgt, List.cons_append]
    rw [ih (fun p' hp' => h p' (List.mem_cons_of_mem _ hp'))]

/-- Entries with increasing keys are inserted one after the other. -/
theorem entries_foldl_insert {l : List (α × β)} (d : Dict α β)
    (h : (d.entries ++ l).Pairwise (fun a b => compare a.1 b.1 = .lt)) :
  (l.foldl (fun d p => d.insert p.1 p.2) d).entries = d.entries ++ l
  := by
  induction l generalizing d with
  | nil => simp
  | cons p l ih =>
    have hinsert : (d.insert p.1 p.2).entries = d.entries ++ [p] := by
      apply put_of_lt
      intro p' hp'
      apply (List.pairwise_append.mp h).2.2 p' hp' p List.mem_cons_self
    rw [List.append_cons] at h
    rw [List.foldl_cons, ih, hinsert, ← List.append_cons]
    rw [hinsert]
    apply h

omit [Std.TransOrd α] in
/-- The keys are those at which look-up finds a value. -/
theorem mem_keys [Std.LawfulEqOrd α] {d : Dict α β} {k : α} :
  k ∈ d.keys ↔ d.contains k
  := by
  rw [contains, Option.isSome_iff_exists, keys, List.mem_map]
  constructor
  · rintro ⟨⟨k, v⟩, hmem, rfl⟩
    exact ⟨v, mem_entries_iff.mp hmem⟩
  · rintro ⟨v, hv⟩
    exact ⟨(k, v), mem_entries_iff.mpr hv, rfl⟩

end Dict

/-! ### Sets of names -/

namespace NameSet

/-- Sets with the same members are equal. -/
theorem ext_contains {s t : NameSet} (h : ∀ name, s.contains name ↔ t.contains name) :
  s = t
  := by
  apply Dict.ext_get?
  intro name
  have hname := h name
  simp only [Dict.contains, Option.isSome_iff_exists, Unique.exists_iff] at hname
  apply Option.ext
  rintro ⟨⟩
  apply hname

/-- Lists make the same set if they have the same members, whatever their order and however often they
have them. -/
theorem ofNames_eq_iff {names names' : List String} :
  ofNames names = ofNames names' ↔ ∀ name, name ∈ names ↔ name ∈ names'
  := by
  constructor
  · intro h name
    rw [← contains_ofNames, h, contains_ofNames]
  · intro h
    apply ext_contains
    intro name
    rw [contains_ofNames, contains_ofNames, h]

/-- A set is given back by its listing. -/
theorem names_injective {s t : NameSet} (h : s.names = t.names) :
  s = t
  := by
  apply ext_contains
  intro name
  rw [← Dict.mem_keys, ← Dict.mem_keys]
  rw [names, names] at h
  rw [h]

theorem mem_names_ofNames {names : List String} {name : String} :
  name ∈ (ofNames names).names ↔ name ∈ names
  := by
  rw [NameSet.names, Dict.mem_keys, contains_ofNames]

theorem names_ofNames_ne_nil {names : List String} (h : names ≠ []) :
  (ofNames names).names ≠ []
  := by
  obtain ⟨name, hmem⟩ := List.exists_mem_of_ne_nil names h
  apply List.ne_nil_of_mem (mem_names_ofNames.mpr hmem)

end NameSet

/-- Names that are given in increasing order are listed in that order. -/
theorem NameSet.names_ofNames {names : List String}
    (h : names.Pairwise (fun a b => compare a b = .lt)) :
  (ofNames names).names = names
  := by
  have hpairs : ((Dict.empty : NameSet).entries ++ names.map (fun name => (name, ()))).Pairwise
      (fun a b => compare a.1 b.1 = .lt) := by
    rw [show (Dict.empty : NameSet).entries = [] from rfl, List.nil_append, List.pairwise_map]
    apply h
  rw [NameSet.names, Dict.keys, ofNames, Dict.ofList, Dict.entries_foldl_insert _ hpairs]
  simp [Dict.empty, Function.comp_def]

/-! ### Host names without commas -/

/-- A text of names that are joined by commas falls apart at the commas if the names have none. -/
theorem splitOn_intercalate_comma {names : List String} (hne : names ≠ [])
    (hcomma : ∀ name ∈ names, ',' ∉ name.toList) :
  (",".intercalate names).toList.splitOn ',' = names.map String.toList
  := by
  rw [String.toList_intercalate]
  apply List.splitOn_intercalate
  · intro chars hchars
    obtain ⟨name, hname, rfl⟩ := List.mem_map.mp hchars
    apply hcomma name hname
  · simpa using hne

theorem splitOn_hostnamesText {names : List String} (hne : names ≠ [])
    (hcomma : ∀ name ∈ names, ',' ∉ name.toList) :
  (hostnamesText names).toList.splitOn ',' = (NameSet.ofNames names).names.map String.toList
  := by
  apply splitOn_intercalate_comma (NameSet.names_ofNames_ne_nil hne)
  intro name hname
  apply hcomma name (NameSet.mem_names_ofNames.mp hname)

/-- The text of host names without commas tells their set. -/
theorem hostnamesText_eq_iff {names names' : List String} (hne : names ≠ []) (hne' : names' ≠ [])
    (hcomma : ∀ name ∈ names, ',' ∉ name.toList) (hcomma' : ∀ name ∈ names', ',' ∉ name.toList) :
  hostnamesText names = hostnamesText names' ↔ ∀ name, name ∈ names ↔ name ∈ names'
  := by
  rw [← NameSet.ofNames_eq_iff]
  constructor
  · intro h
    -- The same text falls apart into the listings of both sets.
    have hsplit := splitOn_hostnamesText hne hcomma
    rw [h, splitOn_hostnamesText hne' hcomma'] at hsplit
    apply NameSet.names_injective
    apply List.map_injective_iff.mpr (fun _ _ => String.toList_inj.mp) hsplit.symm
  · intro h
    rw [hostnamesText, hostnamesText, h]

-- The text does not tell a name with a comma from two names, or no name from an empty one.
example : hostnamesText ["b,c", "a"] = hostnamesText ["a", "b", "c"] := by decide

example : hostnamesText [] = hostnamesText [""] := by decide

/-! ### Host names of services -/

/-- A text comes before those that continue it. -/
theorem compare_append (a : String) {b : String} (h : b ≠ "") :
  compare a (a ++ b) = .lt
  := by
  rw [compare_lt_iff_lt, String.lt_iff_toList_lt, String.toList_append]
  have hlt : a.toList ++ [] < a.toList ++ b.toList := by
    apply List.append_left_lt
    cases hb : b.toList with
    | nil => exact absurd (String.toList_inj.mp hb) h
    | cons c cs => apply List.nil_lt_cons
  rw [List.append_nil] at hlt
  apply hlt

theorem hostnamesText_service (service ns : String) :
  hostnamesText (serviceHostnames service ns)
    = service ++ "," ++ (service ++ "." ++ ns) ++ "," ++ (service ++ "." ++ ns ++ ".svc")
  := by
  have hfirst : compare service (service ++ "." ++ ns) = .lt := by
    rw [String.append_assoc]
    apply compare_append
    simp
  have hsecond : compare (service ++ "." ++ ns) (service ++ "." ++ ns ++ ".svc") = .lt :=
    compare_append _ (by decide)
  have hthird := Std.TransCmp.lt_trans hfirst hsecond
  rw [hostnamesText, NameSet.names_ofNames]
  · simp [serviceHostnames, String.intercalate_cons_cons, String.append_assoc]
  · simp [serviceHostnames, hfirst, hsecond, hthird]

/-- The text of the host names tells the service. -/
theorem serviceHostnames_injective {service service' ns : String}
    (h : hostnamesText (serviceHostnames service ns) = hostnamesText (serviceHostnames service' ns)) :
  service = service'
  := by
  rw [hostnamesText_service, hostnamesText_service, ← String.toList_inj] at h
  simp only [String.toList_append, List.append_assoc] at h
  have hlength := congrArg List.length h
  simp only [List.length_append] at hlength
  apply String.toList_inj.mp
  apply List.append_inj_left h
  omega

end CertKeeper
