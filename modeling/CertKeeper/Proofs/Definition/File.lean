import CertKeeper.CommandLine.Generator
import CertKeeper.Definition.File
import CertKeeper.Proofs.Definition.Sample
import CertKeeper.Proofs.Yaml.Read

/-!
# Reading back files of definitions

Definitions are read back from the file that is written for them (`Definition.ofFile_write`), as the
documents of definitions are mappings that a reader of YAML gives back
(`Definition.isMapping_toDocument`). In particular the sample definitions are read back from the file
of samples, which the generator writes unless the namespace or the service is empty
(`Definition.written_read_back`).
-/

namespace CertKeeper

open CommandLine (SampleOptions generated)
open Document (text map ofFields)
open CertKeeper.Yaml (IsMapping IsBlock Record entries isUnquoted)
open CertKeeper.Yaml.Stream (IsKey)

/-! ### Documents -/

/-- The fields of a record that have a value. -/
def given (fields : List (String × Option Document)) : List (String × Document) :=
  fields.filterMap (fun p => p.2.map (fun value => (p.1, value)))

theorem ofFields_eq (fields : List (String × Option Document)) :
  ofFields fields = map (entries (given fields))
  := by
  rw [ofFields, entries, given, List.map_filterMap]
  simp [Function.comp_def]

theorem mem_of_mem_given {fields : List (String × Option Document)} {field : String × Document}
    (h : field ∈ given fields) :
  (field.1, some field.2) ∈ fields
  := by
  obtain ⟨⟨name, value⟩, hmem, hvalue⟩ := List.mem_filterMap.mp h
  obtain ⟨value, rfl, rfl⟩ := Option.map_eq_some_iff.mp hvalue
  exact hmem

/-- A record is a mapping of records if one of its fields has a value. -/
theorem record_ofFields {fields : List (String × Option Document)} {depth : Nat} {name : String}
    {value : Document} (hmem : (name, some value) ∈ fields) (hkeys : ∀ name ∈ fields.map Prod.fst, IsKey name)
    (hvalues : ∀ field ∈ fields, ∀ value ∈ field.2, Record depth value) :
  Record (depth + 1) (ofFields fields)
  := by
  rw [ofFields_eq]
  refine .map ?_ ?_ ?_
  · have hgiven : (name, value) ∈ given fields := List.mem_filterMap.mpr ⟨_, hmem, rfl⟩
    apply List.ne_nil_of_mem hgiven
  · exact fun field hfield => hkeys _ (List.mem_map_of_mem (mem_of_mem_given hfield))
  · exact fun field hfield => hvalues _ (mem_of_mem_given hfield) _ rfl

theorem record_of_mem_map {α : Type} {depth : Nat} {write : α → Document} (h : ∀ a, Record depth (write a))
    (value : Option α) :
  ∀ d ∈ value.map write, Record depth d
  := by
  intro d hd
  obtain ⟨a, -, rfl⟩ := Option.map_eq_some_iff.mp hd
  apply h

/-- No name of a field needs quotes. -/
theorem isKey_fieldNames {name : String}
    (h : name ∈ ResourceRef.fieldNames ++ Policy.fieldNames ++ Definition.fieldNames) :
  IsKey name
  := by
  have hall : (ResourceRef.fieldNames ++ Policy.fieldNames ++ Definition.fieldNames).all (fun name =>
      name.toList.all Char.isAlpha && decide (name.toList.length ≤ Yaml.Stream.keyBound)
        && !Yaml.looksUntyped name) = true := by decide
  have hname := List.all_eq_true.mp hall name h
  simp only [Bool.and_eq_true, List.all_eq_true, decide_eq_true_eq, Bool.not_eq_true'] at hname
  exact ⟨hname.1.1, hname.1.2, hname.2⟩

theorem ResourceRef.record_toDocument (r : ResourceRef) :
  Record 1 r.toDocument
  := by
  apply record_ofFields List.mem_cons_self
  · intro name hname
    apply isKey_fieldNames
    exact List.mem_append_left _ (List.mem_append_left _ hname)
  · simp only [List.forall_mem_cons]
    exact ⟨fun _ h => Option.some.inj h ▸ .text _, fun _ h => Option.some.inj h ▸ .text _,
      fun _ h => nomatch h⟩

theorem Policy.record_toDocument (p : Policy) :
  Record 1 p.toDocument
  := by
  apply record_ofFields List.mem_cons_self
  · intro name hname
    apply isKey_fieldNames
    exact List.mem_append_left _ (List.mem_append_right _ hname)
  · simp only [List.forall_mem_cons]
    exact ⟨fun _ h => Option.some.inj h ▸ .text _, fun _ h => Option.some.inj h ▸ .text _,
      fun _ h => nomatch h⟩

namespace Definition

variable {definitions : List Definition} {ns service : String}

/-- The document of a definition is a mapping of texts and of mappings of texts. -/
theorem isMapping_toDocument (d : Definition) :
  IsMapping 1 d.toDocument
  := by
  refine ⟨_, rfl, record_ofFields List.mem_cons_self ?_ ?_⟩
  · intro name hname
    apply isKey_fieldNames
    exact List.mem_append_right _ hname
  · simp only [List.forall_mem_cons]
    exact ⟨record_of_mem_map ResourceRef.record_toDocument (some d.signer),
      record_of_mem_map Policy.record_toDocument (some d.signerPolicy),
      record_of_mem_map ResourceRef.record_toDocument d.bundle,
      record_of_mem_map ResourceRef.record_toDocument d.target,
      record_of_mem_map Policy.record_toDocument d.targetPolicy,
      record_of_mem_map Record.text d.service, record_of_mem_map Record.text d.user, fun _ h => nomatch h⟩

theorem loose_isUnquoted (s : String) (h : isUnquoted s) :
  s ≠ "" ∧ Document.isNullWord s = false
  := Yaml.Scalar.of_style_eq_plain (of_decide_eq_true h)

/-- A definition is read back from the text of its document. -/
theorem exists_read_write {d : Definition} (h : d.Countable) :
  ∃ document, Yaml.read depth (Yaml.write d.toDocument) = .ok document ∧ ofDocument? document = some d
  := by
  refine ⟨_, Yaml.read_write (.mapping d.isMapping_toDocument) (by decide), ?_⟩
  rw [ofDocument?_unquote loose_isUnquoted, ofDocument?_toDocument h]

/-- Definitions are read back from the text of their list, before they are validated. -/
theorem ofText_write (h : ∀ d ∈ definitions, d.Countable) :
  ofText (Yaml.write (listToDocument definitions))
    = (validate definitions).mapError .invalidDefinition >>= fun _ => .ok definitions
  := by
  obtain ⟨document, hread, hlist⟩ : ∃ document, Yaml.read depth (Yaml.write (listToDocument definitions))
    = .ok document
      ∧ listOfDocument? document = some definitions := by
    cases definitions with
    | nil => exact ⟨_, Yaml.read_write_nil (by decide), rfl⟩
    | cons d definitions =>
      have hblock : IsBlock 1 (listToDocument (d :: definitions)) := by
        apply IsBlock.items (List.cons_ne_nil _ _)
        intro item hitem
        obtain ⟨d, -, rfl⟩ := List.mem_map.mp (show item ∈ (d :: definitions).map toDocument from hitem)
        apply isMapping_toDocument
      exact ⟨_, Yaml.read_write hblock (by decide), listOfDocument?_unquote loose_isUnquoted h⟩
  rw [ofText, hread]
  show (Except.ok document >>= _) = _
  rw [ok_bind, hlist]
  rfl

theorem fileText_toUTF8 (s : String) :
  fileText (some s.toUTF8) = .ok s
  := by
  rw [fileText, String.fromUTF8?, dif_pos (show s.toUTF8.IsValidUTF8 from s.isValidUTF8)]
  rfl

/-- Definitions are read back from the file that is written for them, before they are validated. -/
theorem ofFile_write (h : ∀ d ∈ definitions, d.Countable) :
  ofFile (some (Yaml.write (listToDocument definitions)).toUTF8)
    = (validate definitions).mapError .invalidDefinition >>= fun _ => .ok definitions
  := by
  rw [← ofText_write h, ofFile, fileText_toUTF8]
  rfl

/-! ### Sample definitions -/

theorem validate_eq_ok (h : ∀ d ∈ definitions, ∃ stages, d.stages = .ok stages) :
  validate definitions = .ok ()
  := by
  induction definitions with
  | nil => rfl
  | cons d definitions ih =>
    obtain ⟨⟨stages, hd⟩, h'⟩ := List.forall_mem_cons.mp h
    rw [validate, hd, ← ih h']
    rfl

theorem sampleFile_eq_ok (hns : ns ≠ "") (hservice : service ≠ "") :
  sampleFile ns service = .ok (Yaml.write (listToDocument (sample ns service)))
    ∧ validate (sample ns service) = .ok ()
  := by
  have hvalid : validate (sample ns service) = .ok () := by
    apply validate_eq_ok
    intro d hd
    obtain ⟨bundle, leaf, -, hstages⟩ := stages_sample hns hservice hd
    exact ⟨_, hstages⟩
  rw [sampleFile, hvalid]
  exact ⟨rfl, rfl⟩

/-- All durations of the sample definitions are whole numbers of hours. -/
theorem countable_sample {d : Definition} (hd : d ∈ sample ns service) :
  d.Countable
  := by
  have hsigner : sampleSignerPolicy.Countable :=
    ⟨Duration.countable_of_fraction (by decide), Duration.countable_of_fraction (by decide)⟩
  have hleaf : sampleLeafPolicy.Countable :=
    ⟨Duration.countable_of_fraction (by decide), Duration.countable_of_fraction (by decide)⟩
  have htarget : ∀ policy ∈ some sampleLeafPolicy, policy.Countable := by
    intro policy hpolicy
    obtain rfl := Option.some.inj hpolicy
    exact hleaf
  rw [sample, List.mem_cons, List.mem_singleton] at hd
  rcases hd with rfl | rfl <;> exact ⟨hsigner, htarget⟩

/-- Without a namespace the first reference is incomplete, and without a service the first leaf has no
identity. -/
theorem sampleFile_eq_error (h : ns = "" ∨ service = "") :
  ∃ fault, sampleFile ns service = .error fault
  := by
  by_cases hns : ns = ""
  · subst hns
    exact ⟨_, rfl⟩
  · obtain rfl := h.resolve_left hns
    have hcheck : ∀ field suffix, suffix ≠ "" → checkRef field ⟨ns, "" ++ suffix⟩ = .ok () :=
      fun field suffix hsuffix => checkRef_eq_ok hns (append_ne_empty hsuffix)
    refine ⟨.noIdentity ⟨ns, "" ++ "-server-cert"⟩, ?_⟩
    simp only [sampleFile, sample, validate, stages, hcheck _ "-signer" (by decide),
      hcheck _ "-ca-bundle" (by decide), hcheck _ "-server-cert" (by decide)]
    rfl

variable {arguments : List String} {output : Option String}

/-- The generator writes the file of samples to where its options say. -/
theorem generated_eq_ok {content : String}
    (hread : SampleOptions.read arguments = .ok ⟨ns, service, output⟩)
    (hfile : sampleFile ns service = .ok content) :
  generated arguments = .ok ⟨output, content⟩
  := by
  rw [generated, hread]
  show (sampleFile ns service).mapError _ >>= _ = _
  rw [hfile]
  rfl

/-- The generator fails as the file of samples does. -/
theorem generated_eq_error {fault : DefinitionFault}
    (hread : SampleOptions.read arguments = .ok ⟨ns, service, output⟩)
    (hfile : sampleFile ns service = .error fault) :
  generated arguments = .error (.failed (.invalidDefinition fault))
  := by
  rw [generated, hread]
  show (sampleFile ns service).mapError _ >>= _ = _
  rw [hfile]
  rfl

/-- Definitions are read back from what was written for them. The counts of their durations must fit into
64 bits, and those of whole seconds do. The sample definitions are written and read back if they have a
namespace and a service, and else nothing is written. -/
theorem written_read_back :
  (∀ d : Definition, d.Countable → ofDocument? d.toDocument = some d
      ∧ ∃ document, Yaml.read depth (Yaml.write d.toDocument) = .ok document ∧ ofDocument? document = some d)
    ∧ (∀ definitions : List Definition, (∀ d ∈ definitions, d.Countable) →
      ofFile (some (Yaml.write (listToDocument definitions)).toUTF8)
        = (validate definitions).mapError .invalidDefinition >>= fun _ => .ok definitions)
    ∧ (∀ d : Duration, d.fraction = 0 → d.Countable)
    ∧ (∀ ns service, ns ≠ "" → service ≠ "" → ∃ content, sampleFile ns service = .ok content
      ∧ ofFile (some content.toUTF8) = .ok (sample ns service)
      ∧ ∀ arguments output, SampleOptions.read arguments = .ok ⟨ns, service, output⟩ →
        generated arguments = .ok ⟨output, content⟩)
    ∧ ∀ ns service, ns = "" ∨ service = "" → ∃ fault, sampleFile ns service = .error fault
      ∧ ∀ arguments output, SampleOptions.read arguments = .ok ⟨ns, service, output⟩ →
        generated arguments = .error (.failed (.invalidDefinition fault))
  := by
  refine ⟨?_, ?_, ?_, ?_, ?_⟩
  · exact fun d hd => ⟨ofDocument?_toDocument hd, exists_read_write hd⟩
  · exact fun definitions h => ofFile_write h
  · exact fun d hd => Duration.countable_of_fraction hd
  · intro ns service hns hservice
    obtain ⟨hfile, hvalid⟩ := sampleFile_eq_ok hns hservice
    refine ⟨_, hfile, ?_, ?_⟩
    · rw [ofFile_write (fun d hd => countable_sample hd), hvalid]
      rfl
    · intro arguments output hread
      apply generated_eq_ok hread hfile
  · intro ns service h
    obtain ⟨fault, hfile⟩ := sampleFile_eq_error h
    refine ⟨fault, hfile, ?_⟩
    intro arguments output hread
    apply generated_eq_error hread hfile

/-- The sample definitions for a service are read back from what the generator prints. -/
theorem written_read_back_of_api :
  ∃ content, sampleFile "pki" "api" = .ok content
    ∧ ofFile (some content.toUTF8) = .ok (sample "pki" "api")
    ∧ generated ["--namespace", "pki", "--service=api"] = .ok ⟨none, content⟩
  := by
  obtain ⟨content, hfile, hread, hgenerated⟩ := written_read_back.2.2.2.1 "pki" "api" (by decide) (by decide)
  exact ⟨content, hfile, hread, hgenerated _ none rfl⟩

end Definition

end CertKeeper
