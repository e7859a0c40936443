import Mathlib.Data.List.DropRight
import CertKeeper.Manager.Settings
import CertKeeper.Proofs.Definition.File
import CertKeeper.Proofs.Manager.Preflight
import CertKeeper.Proofs.Rotation.Merge

/-!
# Settings and passes

The namespaces to watch are the further ones of the command line in the order of their first places, and
then the one of the installation if it is new (`watchedNamespaces_eq`). A definition that uses another
namespace is worth a warning at the start, and a pass over the definitions is refused for the first
warning (`Settings.findSome?_refusal?`). So the warnings predict the passes
(`Settings.warnings_predict_passes`).
-/

namespace CertKeeper

/-! ### Names without blanks -/

theorem toList_trimBlank (text : String) :
  (trimBlank text).toList = (text.toList.dropWhile isBlank).rdropWhile isBlank
  := String.toList_ofList

/-- What is left without the blanks at its ends has no blanks at its ends. -/
theorem trimBlank_trimBlank (text : String) :
  trimBlank (trimBlank text) = trimBlank text
  := by
  apply String.toList_injective
  have hinner : ((text.toList.dropWhile isBlank).rdropWhile isBlank).dropWhile isBlank
      = (text.toList.dropWhile isBlank).rdropWhile isBlank := by
    rw [List.dropWhile_eq_self_iff]
    intro hlength
    have hbegins := List.rdropWhile_prefix isBlank (text.toList.dropWhile isBlank)
    rw [hbegins.getElem hlength]
    apply List.dropWhile_get_zero_not
  rw [toList_trimBlank, toList_trimBlank, hinner, List.rdropWhile_idempotent]

/-- The names that are listed: those of the texts that are not blank. -/
def listedNames (texts : List String) : List String :=
  (texts.map trimBlank).filter (fun name => !name.isEmpty)

theorem mem_listedNames {texts : List String} {name : String} :
  name ∈ listedNames texts ↔ name ≠ "" ∧ ∃ text ∈ texts, trimBlank text = name
  := by
  simp [listedNames, and_comm]

/-- What the loop of `distinctNames` adds to the names that it has got so far. -/
theorem foldl_distinct (names seen : List String) :
  names.foldl (fun seen name => if seen.contains name then seen else seen ++ [name]) seen
    = seen ++ (names.filter (fun name => !seen.contains name)).eraseDups
  := by
  induction names generalizing seen with
  | nil => simp
  | cons name rest ih =>
    rw [List.foldl_cons, ih]
    by_cases hseen : seen.contains name = true
    · rw [if_pos hseen, List.filter_cons_of_neg (by simpa using hseen)]
    · rw [if_neg hseen, List.filter_cons_of_pos (by simpa using hseen), List.eraseDups_cons,
        List.filter_filter, List.append_assoc, List.singleton_append]
      congr 3
      apply List.filter_congr
      intro other _
      by_cases heq : other = name <;> simp [heq]

theorem distinctNames_eq (texts : List String) :
  distinctNames texts = (listedNames texts).eraseDups
  := by
  rw [distinctNames, foldl_distinct]
  simp [listedNames]

/-- The further namespaces are watched in the order of their first places, and then the one of the
installation if it is new. -/
theorem watchedNamespaces_eq (install : String) (additional : List String) :
  watchedNamespaces install additional
    = (listedNames additional).eraseDups
      ++ (if trimBlank install = "" ∨ trimBlank install ∈ additional.map trimBlank then []
        else [trimBlank install])
  := by
  have happend : listedNames (additional ++ [install])
      = listedNames additional ++ listedNames [install] := by
    simp [listedNames]
  rw [watchedNamespaces, distinctNames_eq, happend, List.eraseDups_append]
  apply congrArg ((listedNames additional).eraseDups ++ ·)
  by_cases hblank : trimBlank install = ""
  · rw [if_pos (.inl hblank)]
    simp [listedNames, hblank, List.removeAll]
  · have hinstall : listedNames [install] = [trimBlank install] := by
      simp [listedNames, hblank]
    have hmem : trimBlank install ∈ listedNames additional ↔ trimBlank install ∈ additional.map trimBlank := by
      rw [mem_listedNames, List.mem_map]
      simp only [ne_eq, hblank, not_false_eq_true, true_and]
    rw [hinstall]
    by_cases hnew : trimBlank install ∈ additional.map trimBlank
    · rw [if_pos (.inr hnew)]
      simp [List.removeAll, hmem.mpr hnew]
    · have hfresh : [trimBlank install].removeAll (listedNames additional) = [trimBlank install] := by
        simp [List.removeAll, mt hmem.mp hnew]
      rw [if_neg (not_or.mpr ⟨hblank, hnew⟩), hfresh]
      rfl

theorem nodup_watchedNamespaces (install : String) (additional : List String) :
  (watchedNamespaces install additional).Nodup
  := by
  rw [watchedNamespaces, distinctNames_eq]
  apply (Bundle.pairwise_eraseDupsBy _ _).imp
  intro a b hdiffer heq
  subst heq
  simp at hdiffer

/-- The namespaces that are watched are those of the inputs that are not blank. -/
theorem mem_watchedNamespaces {install : String} {additional : List String} {ns : String} :
  ns ∈ watchedNamespaces install additional
    ↔ ns ≠ "" ∧ ∃ text ∈ additional ++ [install], trimBlank text = ns
  := by
  rw [watchedNamespaces, distinctNames_eq, List.mem_eraseDups, mem_listedNames]

/-! ### Definitions of a file -/

namespace Definition

theorem stages_of_validate {definitions : List Definition} (h : validate definitions = .ok ()) :
  ∀ d ∈ definitions, ∃ kept, d.stages = .ok kept
  := by
  induction definitions with
  | nil =>
    rintro d ⟨⟩
  | cons first rest ih =>
    obtain ⟨kept, hkept, hrest⟩ := bind_eq_ok.mp h
    intro d hd
    rcases List.mem_cons.mp hd with rfl | hd
    · exact ⟨kept, hkept⟩
    · apply ih hrest d hd

/-- The definitions of a file are valid. -/
theorem stages_of_ofFile {content : Option ByteArray} {definitions : List Definition}
    (h : ofFile content = .ok definitions) :
  ∀ d ∈ definitions, ∃ kept, d.stages = .ok kept
  := by
  obtain ⟨text, -, h⟩ := bind_eq_ok.mp h
  obtain ⟨document, -, h⟩ := bind_eq_ok.mp h
  split at h
  · cases h
  · obtain ⟨_, hvalid, h⟩ := bind_eq_ok.mp h
    cases h
    apply stages_of_validate (mapError_eq_ok.mp hvalid)

/-- A valid definition is refused for the first of its namespaces that is not watched. -/
theorem refusal?_of_stages {d : Definition} {kept : Stages} (h : d.stages = .ok kept) (watched : NameSet) :
  d.refusal? watched = (d.namespaces.find? (fun ns => !watched.contains ns)).map .noCache
  := by
  rw [refusal?, h, Manager.namespaces_eq h]

end Definition

/-! ### Warnings -/

namespace Settings

open Manager

variable {s : Settings} {watched : NameSet}

/-- All uses of namespaces by the definitions, in order. -/
def uses (s : Settings) : List UnwatchedUse :=
  s.definitions.flatMap (fun d => d.namespaces.map (fun ns => ⟨d.signer, ns⟩))

theorem warnings_eq (s : Settings) :
  s.warnings = s.uses.filter (fun use => !s.namespaces.contains use.ns)
  := by
  rw [warnings, uses, List.filter_flatMap]
  congr 1
  funext d
  rw [List.filter_map]
  rfl

/-- The first warning of a definition is the namespace for which it is refused. -/
theorem refusal?_eq_head? {d : Definition} {kept : Stages} (hstages : d.stages = .ok kept)
    {namespaces : List String} (hwatched : ∀ ns, watched.contains ns = namespaces.contains ns) :
  d.refusal? watched
    = ((d.namespaces.filter (fun ns => !namespaces.contains ns)).map
        (fun ns => (⟨d.signer, ns⟩ : UnwatchedUse))).head?.map (fun use => .noCache use.ns)
  := by
  rw [Definition.refusal?_of_stages hstages, List.head?_map, List.head?_filter, Option.map_map]
  simp only [hwatched]
  rfl

/-- Valid definitions are refused for the first warning. -/
theorem findSome?_refusal? (hvalid : ∀ d ∈ s.definitions, ∃ kept, d.stages = .ok kept)
    (hwatched : ∀ ns, watched.contains ns ↔ ns ∈ s.namespaces) :
  s.definitions.findSome? (Definition.refusal? watched)
    = s.warnings.head?.map (fun use => .noCache use.ns)
  := by
  have hcontains : ∀ ns, watched.contains ns = s.namespaces.contains ns := by
    intro ns
    rw [Bool.eq_iff_iff, hwatched, List.contains_iff_mem]
  unfold warnings
  generalize s.definitions = definitions at hvalid
  induction definitions with
  | nil => rfl
  | cons d rest ih =>
    obtain ⟨⟨kept, hkept⟩, hrest⟩ := List.forall_mem_cons.mp hvalid
    rw [List.findSome?_cons, List.flatMap_cons, List.head?_append, Option.map_or, ← ih hrest,
      ← refusal?_eq_head? hkept hcontains]
    cases d.refusal? watched <;> rfl

/-- Where the settings come from. -/
theorem resolve_eq_ok {options : CommandLine.KeeperOptions} {account file : Option ByteArray}
    (h : resolve options account file = .ok s) :
  ∃ install, (options.installNamespace = some install
      ∨ (options.installNamespace = none ∧ accountNamespace account = .ok install))
    ∧ s.namespaces = watchedNamespaces install options.additionalNamespaces
    ∧ Definition.ofFile file = .ok s.definitions
  := by
  have hrest : ∀ install, (do
      let definitions ← Definition.ofFile file
      return {
        namespaces := watchedNamespaces install options.additionalNamespaces
        definitions := definitions
        resyncInterval := options.resyncInterval
        cacheSyncTimeout := options.cacheSyncTimeout } : Except Error Settings) = .ok s →
      s.namespaces = watchedNamespaces install options.additionalNamespaces
        ∧ Definition.ofFile file = .ok s.definitions := by
    intro install h
    obtain ⟨definitions, hdefinitions, h⟩ := bind_eq_ok.mp h
    cases h
    exact ⟨rfl, hdefinitions⟩
  unfold resolve at h
  cases hgiven : options.installNamespace with
  | some ns =>
    rw [hgiven] at h
    exact ⟨ns, .inl rfl, hrest ns h⟩
  | none =>
    rw [hgiven] at h
    obtain ⟨install, hinstall, h⟩ := bind_eq_ok.mp h
    exact ⟨install, .inr ⟨rfl, hinstall⟩, hrest install h⟩

/-- The settings of a command line watch each of the namespaces that are named, once and without blanks,
the further ones in the order of their first places and then that of the installation. They warn of
every use of another namespace. A pass with these namespaces and definitions is refused for the first
warning before it asks for anything, and if there is none, then it ends with the error of a refusal only
if one of its calls did. -/
theorem warnings_predict_passes {options : CommandLine.KeeperOptions} {account file : Option ByteArray}
    (h : resolve options account file = .ok s) :
  (∃ install, (options.installNamespace = some install
      ∨ (options.installNamespace = none ∧ accountNamespace account = .ok install))
    ∧ s.namespaces = (listedNames options.additionalNamespaces).eraseDups
      ++ (if trimBlank install = "" ∨ trimBlank install ∈ options.additionalNamespaces.map trimBlank
        then [] else [trimBlank install])
    ∧ ∀ ns, ns ∈ s.namespaces
      ↔ ns ≠ "" ∧ ∃ text ∈ options.additionalNamespaces ++ [install], trimBlank text = ns)
  ∧ s.namespaces.Nodup
  ∧ (∀ ns ∈ s.namespaces, ns ≠ "" ∧ trimBlank ns = ns)
  ∧ s.warnings = (s.definitions.flatMap (fun d => d.namespaces.map (UnwatchedUse.mk d.signer))).filter
    (fun use => use.ns ∉ s.namespaces)
  ∧ ∀ watched : NameSet, (∀ ns, watched.contains ns ↔ ns ∈ s.namespaces) →
    (∀ use rest, s.warnings = use :: rest →
      (sync watched s.definitions).run = .done (.error (.error (.noCache use.ns))))
    ∧ (s.warnings = [] →
      ∀ {σ : Type} {step : Surroundings Request.Answer σ} {t t' : σ} {past : List Exchange} {e : Error},
        Program.Comes step (sync watched s.definitions).run t past (.done (.error (.error e))) t' →
          e.isRefusal = true → ∃ call ∈ past, call.1.Fails call.2 e)
  := by
  obtain ⟨install, hinstall, hnamespaces, hdefinitions⟩ := resolve_eq_ok h
  have hmem : ∀ ns, ns ∈ s.namespaces
      ↔ ns ≠ "" ∧ ∃ text ∈ options.additionalNamespaces ++ [install], trimBlank text = ns := by
    intro ns
    rw [hnamespaces, mem_watchedNamespaces]
  refine ⟨⟨install, hinstall, ?_, hmem⟩, ?_, ?_, ?_, ?_⟩
  · rw [hnamespaces, watchedNamespaces_eq]
  · rw [hnamespaces]
    apply nodup_watchedNamespaces
  · intro ns hns
    obtain ⟨hne, text, -, rfl⟩ := (hmem ns).mp hns
    exact ⟨hne, trimBlank_trimBlank text⟩
  · rw [warnings_eq]
    apply List.filter_congr
    intro use _
    simp
  · intro watched hwatched
    have hfirst := findSome?_refusal? (Definition.stages_of_ofFile hdefinitions) hwatched
    constructor
    · intro use rest huse
      rw [huse] at hfirst
      rw [sync_eq, preflight_of_refusal hfirst]
      rfl
    · intro hnone σ step t t' past e hcomes hrefusal
      rw [hnone] at hfirst
      obtain ⟨plans, hplans⟩ : ∃ plans, preflight watched s.definitions = .ok plans := by
        apply exists_mapM
        intro d hd
        apply exists_plan_of_no_refusal (List.findSome?_eq_none_iff.mp hfirst d hd)
      apply told_of_comes hplans hcomes hrefusal

/-- The sample definitions use a namespace that is not watched, so every pass over them is refused. -/
theorem warnings_predict_passes_of_sample :
  ∃ s, resolve ⟨some "other", [" extra ", ""], "definitions.yaml", .zero, .zero, ⟨.v4 0 0 0 0, 8080⟩, .compact⟩
      none (some (Yaml.write (Definition.listToDocument (Definition.sample "pki" "api"))).toUTF8) = .ok s
    ∧ s.namespaces = ["extra", "other"]
    ∧ (sync (NameSet.ofNames s.namespaces) s.definitions).run
      = .done (.error (.error (.noCache "pki")))
  := by
  have hvalid : Definition.validate (Definition.sample "pki" "api") = .ok () :=
    (Definition.sampleFile_eq_ok (by decide) (by decide)).2
  have hresolve : resolve
      ⟨some "other", [" extra ", ""], "definitions.yaml", .zero, .zero, ⟨.v4 0 0 0 0, 8080⟩, .compact⟩
      none (some (Yaml.write (Definition.listToDocument (Definition.sample "pki" "api"))).toUTF8)
      = .ok ⟨["extra", "other"], Definition.sample "pki" "api", .zero, .zero⟩ := by
    simp only [resolve, Definition.ofFile_write (fun d hd => Definition.countable_sample hd), hvalid]
    rfl
  refine ⟨_, hresolve, rfl, ?_⟩
  obtain ⟨-, -, -, -, hpasses⟩ := warnings_predict_passes hresolve
  exact (hpasses _ (NameSet.contains_ofNames _)).1 ⟨⟨"pki", "api-signer"⟩, "pki"⟩ _ rfl

end Settings

end CertKeeper
