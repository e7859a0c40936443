import CertKeeper.Definition.Record
import CertKeeper.Proofs.Duration.UnitText

/-!
# Reading back records

The record of a definition is read as that definition (`Definition.ofDocument?_toDocument`), as long as
the counts of its durations are `Countable`. It makes no difference if some of the texts of a document
have lost their quotes, provided that they do not stand for nothing then (`Document.unquote`,
`Definition.ofDocument?_unquote`).
-/

namespace CertKeeper

namespace Document

/-! ### Records of fields -/

variable {fields : List (String × Option Document)} {name : String}

/-- There is nothing at a name that is not among the fields. -/
theorem field?_of_not_mem (h : name ∉ fields.map Prod.fst) :
  field? name (fields.filterMap (fun p => p.2.map (fun value => (text p.1, value)))) = some none
  := by
  induction fields with
  | nil => rfl
  | cons p fields ih =>
    rw [List.map_cons, List.mem_cons, not_or] at h
    obtain ⟨hp, hfields⟩ := h
    have hne : p.1 ≠ name := fun he => hp he.symm
    rw [List.filterMap_cons]
    cases p.2 with
    | none => apply ih hfields
    | some value =>
      simp only [Option.map_some, field?, asText?, if_neg hne]
      apply ih hfields

/-- At the name of a field there is its value. -/
theorem field?_of_mem {p : String × Option Document} (hnames : (fields.map Prod.fst).Nodup)
    (h : p ∈ fields) :
  field? p.1 (fields.filterMap (fun p => p.2.map (fun value => (text p.1, value)))) = some p.2
  := by
  induction fields with
  | nil => cases h
  | cons q fields ih =>
    obtain ⟨hq, hfields⟩ := List.nodup_cons.mp hnames
    rw [List.filterMap_cons]
    rcases List.mem_cons.mp h with rfl | hp
    · cases hvalue : p.2 with
      | none => apply field?_of_not_mem hq
      | some value => simp only [Option.map_some, field?, asText?, if_pos, field?_of_not_mem hq]
    · have hne : q.1 ≠ p.1 := by
        intro he
        apply hq
        rw [he]
        apply List.mem_map_of_mem hp
      cases q.2 with
      | none => apply ih hfields hp
      | some value =>
        simp only [Option.map_some, field?, asText?, if_neg hne]
        apply ih hfields hp

/-- A record has the values that were given for its fields. -/
theorem record?_ofFields (hnames : (fields.map Prod.fst).Nodup) :
  record? (fields.map Prod.fst) (ofFields fields) = some (fields.map Prod.snd)
  := by
  have hall : ∀ some' : List (String × Option Document), (∀ p ∈ some', p ∈ fields) →
      (some'.map Prod.fst).mapM (fun name =>
        field? name (fields.filterMap (fun p => p.2.map (fun value => (text p.1, value)))))
      = some (some'.map Prod.snd) := by
    intro some' hmem
    induction some' with
    | nil => rfl
    | cons p some' ih =>
      rw [List.map_cons, List.mapM_cons, field?_of_mem hnames (hmem p List.mem_cons_self),
        ih (fun q hq => hmem q (List.mem_cons_of_mem _ hq))]
      rfl
  apply hall fields (fun _ hp => hp)

/-! ### Texts without quotes -/

mutual

/-- The document without the quotes of some of its texts. -/
def unquote (loose : String → Bool) : Document → Document
  | text s => if loose s then plain s else text s
  | list items => list (unquoteItems loose items)
  | map fields => map (unquoteFields loose fields)
  | d => d

/-- The items of a list without the quotes of some of their texts. -/
def unquoteItems (loose : String → Bool) : List Document → List Document
  | [] => []
  | item :: items => unquote loose item :: unquoteItems loose items

/-- The fields of a mapping without the quotes of some of their texts. -/
def unquoteFields (loose : String → Bool) : List (Document × Document) → List (Document × Document)
  | [] => []
  | (key, value) :: fields => (unquote loose key, unquote loose value) :: unquoteFields loose fields

end

variable {loose : String → Bool} {α : Type} {d : Document}

theorem unquoteItems_eq (items : List Document) :
  unquoteItems loose items = items.map (unquote loose)
  := by
  induction items with
  | nil => rfl
  | cons item items ih => rw [unquoteItems, ih, List.map_cons]

@[simp]
theorem asText?_unquote (d : Document) :
  (d.unquote loose).asText? = d.asText?
  := by
  cases d with
  | text s =>
    rw [unquote]
    split <;> rfl
  | _ => rfl

theorem field?_unquote (name : String) (fields : List (Document × Document)) :
  field? name (unquoteFields loose fields) = (field? name fields).map (Option.map (unquote loose))
  := by
  induction fields with
  | nil => rfl
  | cons field fields ih =>
    obtain ⟨key, value⟩ := field
    simp only [unquoteFields, field?, asText?_unquote, ih]
    cases key.asText? with
    | none => rfl
    | some key =>
      dsimp only
      split
      · rcases field? name fields with _ | _ | _ <;> rfl
      · rfl

theorem record?_unquote (names : List String) (d : Document) :
  record? names (d.unquote loose)
    = (record? names d).map (List.map (Option.map (unquote loose)))
  := by
  cases d with
  | map fields =>
    simp only [unquote, record?]
    induction names with
    | nil => rfl
    | cons name names ih =>
      simp only [List.mapM_cons, field?_unquote] at ih ⊢
      rw [ih]
      cases field? name fields with
      | none => rfl
      | some value =>
        cases names.mapM (fun name => field? name fields) <;> rfl
  | list items =>
    simp only [unquote, record?, unquoteItems_eq, List.length_map]
    split
    · simp [Function.comp_def]
    · rfl
  | text s =>
    rw [unquote]
    split <;> rfl
  | _ => rfl

/-- A value that is read the same without quotes is still so if it may be missing, as long as only
texts that do not stand for nothing lose their quotes. -/
theorem asOptional?_unquote {read : Document → Option α}
    (hloose : ∀ s, loose s → s ≠ "" ∧ isNullWord s = false)
    (hread : ∀ d, read (d.unquote loose) = read d) (d : Document) :
  asOptional? read (d.unquote loose) = asOptional? read d
  := by
  have h := hread d
  cases d with
  | text s =>
    rw [unquote] at h ⊢
    split
    · rename_i hs
      rw [if_pos hs] at h
      obtain ⟨hne, hword⟩ := hloose s hs
      simp [asOptional?, hne, hword, h]
    · rfl
  | list items => simp only [asOptional?, unquote, ← h]
  | map fields => simp only [asOptional?, unquote, ← h]
  | _ => rfl

end Document

open Document (unquote)

variable {loose : String → Bool} {d : Document}

namespace ResourceRef

theorem record?_toDocument (r : ResourceRef) :
  Document.record? fieldNames r.toDocument = some [some (.text r.ns), some (.text r.name)]
  := by
  have hnames : fieldNames.Nodup := by decide
  exact @Document.record?_ofFields [("namespace", some (.text r.ns)), ("name", some (.text r.name))] hnames

theorem ofDocument?_toDocument (r : ResourceRef) :
  ofDocument? r.toDocument = some r
  := by
  rw [ofDocument?, record?_toDocument]
  rfl

theorem ofDocument?_unquote (d : Document) :
  ofDocument? (d.unquote loose) = ofDocument? d
  := by
  rw [ofDocument?, ofDocument?, Document.record?_unquote]
  cases Document.record? fieldNames d with
  | none => rfl
  | some values =>
    rcases values with _ | ⟨_ | ns, _ | ⟨_ | name, _ | ⟨_, _⟩⟩⟩ <;> try rfl
    simp only [Option.map_some, Option.bind_eq_bind, Option.bind_some, List.map_cons, List.map_nil,
      Document.asText?_unquote]

end ResourceRef

namespace Duration

theorem ofDocument?_toDocument {d : Duration} (h : d.Countable) :
  ofDocument? d.toDocument = some d
  := by
  simp only [ofDocument?, toDocument, Document.asText?, Option.bind_eq_bind, Option.bind_some, read_write h]
  rfl

theorem ofDocument?_unquote (d : Document) :
  ofDocument? (d.unquote loose) = ofDocument? d
  := by
  simp only [ofDocument?, Document.asText?_unquote]

end Duration

namespace Policy

/-- The counts of both durations of a policy fit into 64 bits. -/
structure Countable (p : Policy) : Prop where
  lifetime : p.lifetime.Countable
  refresh : p.refresh.Countable

theorem record?_toDocument (p : Policy) :
  Document.record? fieldNames p.toDocument = some [some p.lifetime.toDocument, some p.refresh.toDocument]
  := by
  have hnames : fieldNames.Nodup := by decide
  exact @Document.record?_ofFields
    [("lifetime", some p.lifetime.toDocument), ("refresh", some p.refresh.toDocument)] hnames

theorem ofDocument?_toDocument {p : Policy} (h : p.Countable) :
  ofDocument? p.toDocument = some p
  := by
  simp only [ofDocument?, record?_toDocument, Option.bind_eq_bind, Option.bind_some,
    Duration.ofDocument?_toDocument h.lifetime, Duration.ofDocument?_toDocument h.refresh]
  rfl

theorem ofDocument?_unquote (d : Document) :
  ofDocument? (d.unquote loose) = ofDocument? d
  := by
  rw [ofDocument?, ofDocument?, Document.record?_unquote]
  cases Document.record? fieldNames d with
  | none => rfl
  | some values =>
    rcases values with _ | ⟨_ | lifetime, _ | ⟨_ | refresh, _ | ⟨_, _⟩⟩⟩ <;> try rfl
    simp only [Option.map_some, Option.bind_eq_bind, Option.bind_some, List.map_cons, List.map_nil,
      Duration.ofDocument?_unquote]

end Policy

namespace Definition

variable {α : Type}

/-- The counts of all durations of a definition fit into 64 bits. -/
structure Countable (d : Definition) : Prop where
  signer : d.signerPolicy.Countable
  target : ∀ policy ∈ d.targetPolicy, policy.Countable

theorem record?_toDocument (d : Definition) :
  Document.record? fieldNames d.toDocument
    = some [some d.signer.toDocument, some d.signerPolicy.toDocument, d.bundle.map ResourceRef.toDocument,
      d.target.map ResourceRef.toDocument, d.targetPolicy.map Policy.toDocument, d.service.map .text,
      d.user.map .text]
  := by
  have hnames : fieldNames.Nodup := by decide
  exact @Document.record?_ofFields
    [("signerSecret", some d.signer.toDocument), ("signerConfig", some d.signerPolicy.toDocument),
      ("certBundleConfigmap", d.bundle.map ResourceRef.toDocument),
      ("targetSecret", d.target.map ResourceRef.toDocument),
      ("targetConfig", d.targetPolicy.map Policy.toDocument),
      ("targetService", d.service.map .text), ("targetUser", d.user.map .text)] hnames

/-- An optional value is read from what was written for it. The document of a value is quoted text or
a collection, so it does not stand for nothing. -/
theorem optional?_map {read : Document → Option α} {write : α → Document} {value : Option α}
    (hwrite : ∀ a, (∃ s, write a = .text s) ∨ ∃ fields, write a = .map fields)
    (hread : ∀ a ∈ value, read (write a) = some a) :
  optional? read (value.map write) = some value
  := by
  cases value with
  | none => rfl
  | some a =>
    have ha := hread a rfl
    rw [Option.map_some, optional?]
    rcases hwrite a with ⟨s, hs⟩ | ⟨fields, hfields⟩
    · rw [hs] at ha ⊢
      rw [Document.asOptional?, ha, Option.map_some]
      all_goals simp
    · rw [hfields] at ha ⊢
      rw [Document.asOptional?, ha, Option.map_some]
      all_goals simp

/-- A definition is read from its record. -/
theorem ofDocument?_toDocument {d : Definition} (h : d.Countable) :
  ofDocument? d.toDocument = some d
  := by
  have href : ∀ value : Option ResourceRef,
      optional? ResourceRef.ofDocument? (value.map ResourceRef.toDocument) = some value := by
    intro value
    apply optional?_map (fun _ => .inr ⟨_, rfl⟩)
    exact fun r _ => r.ofDocument?_toDocument
  have hpolicy : optional? Policy.ofDocument? (d.targetPolicy.map Policy.toDocument)
      = some d.targetPolicy := by
    apply optional?_map (fun _ => .inr ⟨_, rfl⟩)
    exact fun policy hp => Policy.ofDocument?_toDocument (h.target policy hp)
  have htext : ∀ value : Option String,
      optional? Document.asText? (value.map .text) = some value := by
    intro value
    apply optional?_map (fun s => .inl ⟨s, rfl⟩)
    exact fun s _ => rfl
  simp only [ofDocument?, record?_toDocument, Option.bind_eq_bind, Option.bind_some,
    ResourceRef.ofDocument?_toDocument, Policy.ofDocument?_toDocument h.signer, href, hpolicy, htext]
  rfl

theorem optional?_unquote {read : Document → Option α}
    (hloose : ∀ s, loose s → s ≠ "" ∧ Document.isNullWord s = false)
    (hread : ∀ d, read (d.unquote loose) = read d) (value : Option Document) :
  optional? read (value.map (unquote loose)) = optional? read value
  := by
  cases value with
  | none => rfl
  | some d => apply Document.asOptional?_unquote hloose hread

/-- A definition is read all the same if texts that do not stand for nothing have lost their quotes. -/
theorem ofDocument?_unquote (hloose : ∀ s, loose s → s ≠ "" ∧ Document.isNullWord s = false)
    (d : Document) :
  ofDocument? (d.unquote loose) = ofDocument? d
  := by
  rw [ofDocument?, ofDocument?, Document.record?_unquote]
  cases Document.record? fieldNames d with
  | none => rfl
  | some values =>
    rcases values with _ | ⟨_ | signer, _ | ⟨_ | signerPolicy, _ | ⟨bundle, _ | ⟨target, _ |
      ⟨targetPolicy, _ | ⟨service, _ | ⟨user, _ | ⟨_, _⟩⟩⟩⟩⟩⟩⟩⟩ <;> try rfl
    simp only [Option.map_some, Option.bind_eq_bind, Option.bind_some, List.map_cons, List.map_nil,
      ResourceRef.ofDocument?_unquote, Policy.ofDocument?_unquote,
      optional?_unquote hloose ResourceRef.ofDocument?_unquote,
      optional?_unquote hloose Policy.ofDocument?_unquote,
      optional?_unquote hloose Document.asText?_unquote]

/-- Definitions are read from the list of their records, in which texts that do not stand for nothing
may have lost their quotes. -/
theorem listOfDocument?_unquote (hloose : ∀ s, loose s → s ≠ "" ∧ Document.isNullWord s = false)
    {definitions : List Definition} (h : ∀ d ∈ definitions, d.Countable) :
  listOfDocument? ((listToDocument definitions).unquote loose) = some definitions
  := by
  show (Document.unquoteItems loose (definitions.map toDocument)).mapM ofDocument? = some definitions
  induction definitions with
  | nil => rfl
  | cons d definitions ih =>
    have hd := ofDocument?_toDocument (h d List.mem_cons_self)
    rw [List.map_cons, Document.unquoteItems, List.mapM_cons, ofDocument?_unquote hloose, hd,
      ih (fun d' hd' => h d' (List.mem_cons_of_mem _ hd'))]
    rfl

end Definition

end CertKeeper
