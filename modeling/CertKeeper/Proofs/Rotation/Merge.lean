import CertKeeper.Proofs.Certificate.Trusted
import CertKeeper.Proofs.Time.Instant
import CertKeeper.Rotation.Bundle

/-!
# The certificates of a bundle

`Bundle.merge` puts the present certificate first and then each certificate of the former
bundle that has not expired, at its first place (`Bundle.merge_eq`). Certificates are told
apart by their texts. So a merged list has no text twice, nothing that was trusted and has
not expired is lost, and merging again changes nothing (`Bundle.merge_merge`).
-/

namespace CertKeeper

/-- A validity that has not ended yet had not ended before. -/
theorem CertificateInfo.isExpired_of_later {info : CertificateInfo} {now now' : Instant}
    (hlater : ¬ now'.before now) (h : info.isExpired now' = false) :
  info.isExpired now = false
  := by
  rw [isExpired, ← Bool.not_eq_true, Instant.notBefore_iff, Decidable.not_not] at *
  apply Instant.before_of_not_before hlater h

namespace Bundle

/-- Two certificates have the same text. -/
def sameText (a b : TrustedCertificate) : Bool := a.pem = b.pem

/-- The certificates of a list that have not expired and are not the present one, each at its
first place. -/
def retained (now : Instant) (present : TrustedCertificate) (existing : List TrustedCertificate) :
    List TrustedCertificate :=
  (existing.filter (fun cert => !cert.info.isExpired now && !sameText present cert)).eraseDupsBy
    sameText

variable {now : Instant} {present : TrustedCertificate}

/-- What the loop of `merge` adds to a list that it has got so far. -/
theorem foldl_merge (now : Instant) (existing certs : List TrustedCertificate) :
  existing.foldl
      (fun certs cert =>
        if cert.info.isExpired now || certs.any (fun c => c.pem = cert.pem) then certs
        else certs ++ [cert])
      certs
    = certs ++ (existing.filter
        (fun cert => !cert.info.isExpired now && !certs.any (fun c => sameText c cert))).eraseDupsBy
        sameText
  := by
  induction existing generalizing certs with
  | nil => simp
  | cons cert rest ih =>
    rw [List.foldl_cons, ih]
    by_cases hdrop : (cert.info.isExpired now || certs.any (fun c => c.pem = cert.pem)) = true
    · rw [if_pos hdrop, List.filter_cons_of_neg]
      rcases (Bool.or_eq_true _ _).mp hdrop with hexpired | hsame
      · simp [hexpired]
      · have hany : certs.any (fun c => sameText c cert) = true := hsame
        simp [hany]
    · rw [if_neg hdrop, List.filter_cons_of_pos (by simpa [sameText] using hdrop),
        List.eraseDupsBy_cons, List.filter_filter, List.append_assoc, List.singleton_append]
      congr 3
      apply List.filter_congr
      intro x _
      simp only [List.any_append, List.any_cons, List.any_nil, Bool.or_false, Bool.not_or, sameText]
      by_cases hx : cert.pem = x.pem
      · simp [hx]
      · simp [hx, Ne.symm hx]

/-- The merged list is the present certificate and those that are retained. -/
theorem merge_eq (now : Instant) (present : TrustedCertificate) (existing : List TrustedCertificate) :
  merge now present existing = present :: retained now present existing
  := by
  rw [merge, foldl_merge, retained]
  simp

theorem eraseDupsBy_sublist {α : Type} (r : α → α → Bool) (l : List α) :
  (l.eraseDupsBy r).Sublist l
  := by
  induction h : l.length using Nat.strongRecOn generalizing l with
  | _ n ih =>
    cases l with
    | nil => simp
    | cons a l =>
      rw [List.eraseDupsBy_cons]
      apply List.Sublist.cons_cons
      apply List.Sublist.trans (ih _ _ _ rfl) List.filter_sublist
      subst h
      apply Nat.lt_succ_of_le (List.length_filter_le _ _)

theorem pairwise_eraseDupsBy {α : Type} (r : α → α → Bool) (l : List α) :
  (l.eraseDupsBy r).Pairwise (fun a b => r b a = false)
  := by
  induction h : l.length using Nat.strongRecOn generalizing l with
  | _ n ih =>
    cases l with
    | nil => simp
    | cons a l =>
      rw [List.eraseDupsBy_cons, List.pairwise_cons]
      constructor
      · intro b hb
        have := List.mem_filter.mp ((eraseDupsBy_sublist r _).subset hb)
        simpa using this.2
      · subst h
        apply ih _ (Nat.lt_succ_of_le (List.length_filter_le _ _)) _ rfl

/-- Everything in a list is still there, up to `r`, when its repetitions are erased. -/
theorem exists_mem_eraseDupsBy {α : Type} {r : α → α → Bool} (hr : ∀ a, r a a = true) {l : List α}
    {b : α} (hb : b ∈ l) :
  ∃ a ∈ l.eraseDupsBy r, r b a = true
  := by
  induction h : l.length using Nat.strongRecOn generalizing l with
  | _ n ih =>
    cases l with
    | nil => cases hb
    | cons a l =>
      rw [List.eraseDupsBy_cons]
      by_cases hba : r b a = true
      · exact ⟨a, List.mem_cons_self, hba⟩
      · have hmem : b ∈ l.filter (fun b => r b a = false) := by
          rcases List.mem_cons.mp hb with rfl | hb
          · exact absurd (hr b) hba
          · exact List.mem_filter.mpr ⟨hb, by simpa using hba⟩
        subst h
        obtain ⟨c, hc, hbc⟩ := ih _ (Nat.lt_succ_of_le (List.length_filter_le _ _)) hmem rfl
        exact ⟨c, List.mem_cons_of_mem _ hc, hbc⟩

theorem eraseDupsBy_eq_self {α : Type} {r : α → α → Bool} {l : List α}
    (h : l.Pairwise (fun a b => r b a = false)) :
  l.eraseDupsBy r = l
  := by
  induction l with
  | nil => rfl
  | cons a l ih =>
    rw [List.pairwise_cons] at h
    rw [List.eraseDupsBy_cons, List.filter_eq_self.mpr (by simpa using h.1), ih h.2]

/-- What is retained was in the list, has not expired and is not the present certificate. -/
theorem of_mem_retained {existing : List TrustedCertificate} {cert : TrustedCertificate}
    (h : cert ∈ retained now present existing) :
  cert ∈ existing ∧ cert.info.isExpired now = false ∧ present.pem ≠ cert.pem
  := by
  have := List.mem_filter.mp ((eraseDupsBy_sublist _ _).subset h)
  simpa [sameText] using this

/-- No two certificates of a merged list have the same text. -/
theorem pairwise_merge (now : Instant) (present : TrustedCertificate)
    (existing : List TrustedCertificate) :
  (merge now present existing).Pairwise (fun a b => a.pem ≠ b.pem)
  := by
  rw [merge_eq, List.pairwise_cons]
  constructor
  · intro cert hcert
    apply (of_mem_retained hcert).2.2
  · apply List.Pairwise.imp _ (pairwise_eraseDupsBy sameText _)
    intro a b hab hsame
    simp [sameText, hsame] at hab

/-- A certificate that has not expired is not lost. -/
theorem exists_mem_merge {existing : List TrustedCertificate} {cert : TrustedCertificate}
    (h : cert ∈ existing) (hexpired : cert.info.isExpired now = false) :
  ∃ cert' ∈ merge now present existing, cert'.pem = cert.pem
  := by
  rw [merge_eq]
  by_cases hsame : present.pem = cert.pem
  · exact ⟨present, List.mem_cons_self, hsame⟩
  · have hmem : cert ∈ existing.filter
        (fun cert => !cert.info.isExpired now && !sameText present cert) := by
      simp [h, hexpired, sameText, hsame]
    obtain ⟨cert', hcert', hcc⟩ := exists_mem_eraseDupsBy (r := sameText) (by simp [sameText]) hmem
    exact ⟨cert', List.mem_cons_of_mem _ hcert', by simpa [sameText, eq_comm] using hcc⟩

/-- Merging the present certificate once more changes nothing. -/
theorem merge_merge (now : Instant) (present : TrustedCertificate)
    (existing : List TrustedCertificate) :
  merge now present (merge now present existing) = merge now present existing
  := by
  have hpair := pairwise_merge now present existing
  rw [merge_eq now present existing, List.pairwise_cons] at hpair
  rw [merge_eq now present existing, merge_eq, retained, List.filter_cons_of_neg (by simp [sameText]),
    List.filter_eq_self.mpr, eraseDupsBy_eq_self]
  · apply List.Pairwise.imp _ hpair.2
    intro a b hab
    simpa [sameText] using Ne.symm hab
  · intro cert hcert
    obtain ⟨-, hexpired, hne⟩ := of_mem_retained hcert
    simp [hexpired, sameText, hne]

/-- Genuine certificates are not lost as long as they have not expired. -/
theorem mem_merge {existing : List TrustedCertificate} {cert : TrustedCertificate}
    (hpresent : present.Genuine) (hexisting : ∀ cert ∈ existing, cert.Genuine) (h : cert ∈ existing)
    (hexpired : cert.info.isExpired now = false) :
  cert ∈ merge now present existing
  := by
  have hsame : ∃ cert' ∈ merge now present existing, cert'.pem = cert.pem :=
    exists_mem_merge h hexpired
  obtain ⟨cert', hcert', hpem⟩ := hsame
  have hgenuine : cert'.Genuine := by
    rw [merge_eq] at hcert'
    rcases List.mem_cons.mp hcert' with rfl | hretained
    · apply hpresent
    · apply hexisting _ (of_mem_retained hretained).1
  rwa [hgenuine.eq_of_pem_eq (hexisting _ h) hpem] at hcert'

end Bundle

end CertKeeper
