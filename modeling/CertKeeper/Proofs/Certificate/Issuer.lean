import CertKeeper.Certificate.Authority
import CertKeeper.Proofs.Certificate.Reading

/-!
# Issuing names

The name under which a certificate issues others is regular, so that it is read back from
what is issued (`IssuerName.regular_of_ofCertificate?`). A certificate that signs itself
issues under its subject (`IssuerName.ofCertificate?_selfSigned`).
-/

namespace CertKeeper

namespace IssuerName

theorem regular_of_isText {a : Attribute} (h : isText a) :
  a.Regular
  := by
  unfold isText at h
  split at h
  case h_7 => cases h
  all_goals
    rename_i htag
    show a.tag < 31
    omega

theorem mapM_eq_some {α β : Type} {f : α → Option β} {l : List α} {r : List β}
    (h : l.mapM f = some r) :
  ∀ b ∈ r, ∃ a ∈ l, f a = some b
  := by
  induction l generalizing r with
  | nil =>
    cases h
    intro b hb
    cases hb
  | cons a l ih =>
    simp only [List.mapM_cons, Option.bind_eq_bind, Option.bind_eq_some_iff] at h
    obtain ⟨b, hb, bs, hbs, hr⟩ := h
    cases hr
    intro b' hb'
    rcases List.mem_cons.mp hb' with rfl | hb'
    · exact ⟨a, List.mem_cons_self, hb⟩
    · obtain ⟨a', ha', hfa'⟩ := ih hbs b' hb'
      exact ⟨a', List.mem_cons_of_mem _ ha', hfa'⟩

theorem mem_push {attributes : List Attribute} {a b : Attribute} (h : b ∈ push attributes a) :
  b ∈ attributes ∨ b = a
  := by
  unfold push at h
  split at h
  · obtain ⟨c, hc, rfl⟩ := List.mem_map.mp h
    split
    · exact .inr rfl
    · exact .inl hc
  · rcases List.mem_append.mp h with h | h
    · exact .inl h
    · exact .inr (List.mem_singleton.mp h)

theorem mem_foldl_push {attributes start : List Attribute} {b : Attribute}
    (h : b ∈ attributes.foldl push start) :
  b ∈ start ∨ b ∈ attributes
  := by
  induction attributes generalizing start with
  | nil => exact .inl h
  | cons a attributes ih =>
    rcases ih h with h | h
    · rcases mem_push h with h | rfl
      · exact .inl h
      · exact .inr List.mem_cons_self
    · exact .inr (List.mem_cons_of_mem _ h)

theorem regular_of_ofName? {n name : Name} (h : ofName? n = some name) :
  name.Regular
  := by
  simp only [ofName?, Option.bind_eq_bind, Option.bind_eq_some_iff] at h
  obtain ⟨attributes, hattributes, hname⟩ := h
  cases hname
  intro entry hentry
  obtain ⟨a, ha, rfl⟩ := List.mem_map.mp hentry
  constructor
  · simp
  · intro a' ha'
    obtain rfl := List.mem_singleton.mp ha'
    rcases mem_foldl_push ha with h | h
    · cases h
    · obtain ⟨entry, -, hread⟩ := mapM_eq_some hattributes a' h
      split at hread
      · split at hread
        · cases hread
          apply regular_of_isText
          assumption
        · cases hread
      · cases hread

/-- The name under which a certificate issues others is regular. -/
theorem regular_of_ofCertificate? {c : Certificate} {name : Name}
    (h : ofCertificate? c = some name) :
  name.Regular
  := by
  obtain ⟨n, hn, hrest⟩ := Option.bind_eq_some_iff.mp h
  have heq : n = name := by
    simp only [Option.bind_eq_bind, Option.bind_eq_some_iff] at hrest
    obtain ⟨constraints, -, hrest⟩ := hrest
    split at hrest
    · cases hrest
    · simp only [Option.bind_eq_some_iff] at hrest
      obtain ⟨altNames, -, hrest⟩ := hrest
      split at hrest
      · cases hrest
      · simp only [Option.bind_eq_some_iff] at hrest
        obtain ⟨uses, -, extended, -, subtrees, -, hrest⟩ := hrest
        split at hrest
        · cases hrest
        · cases hrest
          rfl
  rw [← heq]
  apply regular_of_ofName? hn

theorem ofName?_ofCommonName (text : String) :
  ofName? (Name.ofCommonName text) = some (Name.ofCommonName text)
  := by
  have htext : isText (Attribute.commonName text) = true := by
    show (Octets.text? (Octets.ofText text)).isSome = true
    rw [Octets.text?_ofText]
    rfl
  simp only [ofName?, Name.ofCommonName, List.mapM_cons, List.mapM_nil, htext, if_true]
  rfl

/-- A certificate that signs itself issues under its subject. -/
theorem ofCertificate?_selfSigned (commonName : String) (v : Validity) (key : PrivateKey) :
  ofCertificate? (Certificate.selfSigned commonName v key)
    = some (Certificate.selfSigned commonName v key).subject
  := by
  have hname : ofName? (Certificate.selfSigned commonName v key).subject
      = some (Certificate.selfSigned commonName v key).subject := ofName?_ofCommonName commonName
  have hconstraints : (Certificate.selfSigned commonName v key).extension? Extension.constraintsOid
      BasicConstraints.ofValue? = some (some ⟨true, none⟩) := rfl
  have haltNames : (Certificate.selfSigned commonName v key).extension? Extension.altNamesOid
      AltName.ofValue? = some none := rfl
  have husage : ∃ uses, (Certificate.selfSigned commonName v key).extension? Extension.keyUsageOid
      KeyUse.ofValue? = some uses := ⟨_, rfl⟩
  have hextended : (Certificate.selfSigned commonName v key).extension? Extension.extendedUsageOid
      ExtendedUsage.ofValue? = some none := rfl
  have hsubtrees : (Certificate.selfSigned commonName v key).extension? Extension.nameConstraintsOid
      nameConstraints? = some none := rfl
  obtain ⟨uses, huses⟩ := husage
  simp only [ofCertificate?, hname, hconstraints, haltNames, huses, hextended, hsubtrees,
    Option.bind_eq_bind, Option.bind_some]
  rfl

theorem isAscii_append {a b : String} (ha : isAscii a) (hb : isAscii b) :
  isAscii (a ++ b)
  := by
  simp only [isAscii, String.toList_append, List.all_append, Bool.and_eq_true] at *
  exact ⟨ha, hb⟩

end IssuerName

end CertKeeper
