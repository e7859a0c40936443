import CertKeeper.Policy
import CertKeeper.Proofs.Text.Decimal
import Mathlib.Algebra.GroupWithZero.Nat
import Mathlib.Data.List.SplitBy
import Mathlib.Data.List.TakeWhile
import Mathlib.Data.List.Pairwise

/-!
# What the text of a duration denotes

A text of a duration is read as the sum of its terms, each a decimal number times a unit
(`Duration.denoted?`). Read like this, `Duration.clockText` denotes exactly the duration that it
writes (`Duration.denoted?_clockText`). So two durations are written the same only if they are the
same, and two policies have the same fingerprint only if they are the same
(`Policy.fingerprint_injective`).
-/

namespace CertKeeper

namespace Duration

/-! ### Reading terms -/

/-- A character of a decimal number. -/
def isNumeral (c : Char) : Bool := c.isDigit || c = '.'

/-- The nanoseconds of a unit. -/
def clockUnit? : List Char → Option Nat
  | ['h'] => some (3600 * nanosPerSecond)
  | ['m'] => some (60 * nanosPerSecond)
  | ['s'] => some nanosPerSecond
  | ['m', 's'] => some 1000000
  | ['µ', 's'] => some 1000
  | ['n', 's'] => some 1
  | _ => none

/-- A decimal number times a whole one, if that is whole. -/
def times? (number : List Char) (n : Nat) : Option Nat :=
  let whole := number.takeWhile (· ≠ '.')
  let fraction := (number.dropWhile (· ≠ '.')).drop 1
  (Decimal.value? (whole ++ fraction)).bind (fun value =>
    if 10 ^ fraction.length ∣ value * n then some (value * n / 10 ^ fraction.length) else none)

/-- The nanoseconds of a decimal number with a unit after it. -/
def termNanos? (term : List Char) : Option Nat :=
  (clockUnit? (term.dropWhile isNumeral)).bind (times? (term.takeWhile isNumeral))

/-- The terms of a text. A new one begins with each number that comes after a unit. -/
def terms (cs : List Char) : List (List Char) := cs.splitBy (fun c c' => isNumeral c || !isNumeral c')

/-- The nanoseconds of a text, read as the sum of its decimal numbers times their units. -/
def denoted? (text : String) : Option Nat := ((terms text.toList).mapM termNanos?).map List.sum

/-- A number with a unit after it, which come to some nanoseconds. -/
structure Term (term : List Char) (nanos : Nat) : Prop where
  parts : ∃ number unit, term = number ++ unit ∧ number ≠ [] ∧ unit ≠ []
    ∧ (∀ c ∈ number, isNumeral c) ∧ ∀ c ∈ unit, isNumeral c = false
  value : termNanos? term = some nanos

/-- Terms that are written after one another are told apart. -/
theorem terms_flatten {written : List (List Char)} (h : ∀ term ∈ written, ∃ nanos, Term term nanos) :
  terms written.flatten = written
  := by
  have hpairwise : ∀ {α : Type} {r : α → α → Prop} {l : List α}, (∀ a ∈ l, ∀ b ∈ l, r a b) →
      l.IsChain r := by
    intro α r l hr
    apply List.Pairwise.isChain
    apply List.pairwise_of_forall_mem_list hr
  apply List.splitBy_flatten
  · intro hnil
    obtain ⟨_, ⟨number, unit, heq, hne, -⟩, -⟩ := h [] hnil
    exact hne (List.append_eq_nil_iff.mp heq.symm).1
  · intro term hterm
    obtain ⟨_, ⟨number, unit, rfl, -, -, hnumber, hunit⟩, -⟩ := h term hterm
    -- A number goes on after each numeral, and a unit before each character that is none.
    apply List.isChain_append.mpr
    refine ⟨hpairwise ?_, hpairwise ?_, ?_⟩
    · intro c hc c' _
      simp [hnumber c hc]
    · intro c _ c' hc'
      simp [hunit c' hc']
    · intro c hc c' _
      simp [hnumber c (List.mem_of_getLast? hc)]
  · apply hpairwise
    intro term hterm term' hterm'
    obtain ⟨_, ⟨number, unit, rfl, -, hne, -, hunit⟩, -⟩ := h term hterm
    obtain ⟨_, ⟨number', unit', rfl, hne', -, hnumber, -⟩, -⟩ := h term' hterm'
    refine ⟨by simp [hne], by simp [hne'], ?_⟩
    rw [List.getLast_append_of_ne_nil _ hne, List.head_append_of_ne_nil hne',
      hunit _ (List.getLast_mem hne), hnumber _ (List.head_mem hne')]
    rfl

/-- A text that is put together from terms, and the sum of the terms. -/
def Sums (cs : List Char) (nanos : Nat) : Prop :=
  ∃ written : List (List Char × Nat), (∀ term ∈ written, Term term.1 term.2)
    ∧ cs = (written.map Prod.fst).flatten ∧ nanos = (written.map Prod.snd).sum

theorem Term.sums {cs : List Char} {nanos : Nat} (h : Term cs nanos) :
  Sums cs nanos
  := ⟨[(cs, nanos)], by simpa using h, by simp, by simp⟩

theorem Sums.append {cs cs' : List Char} {nanos nanos' : Nat} (h : Sums cs nanos)
    (h' : Sums cs' nanos') :
  Sums (cs ++ cs') (nanos + nanos')
  := by
  obtain ⟨written, hterms, rfl, rfl⟩ := h
  obtain ⟨written', hterms', rfl, rfl⟩ := h'
  refine ⟨written ++ written', ?_, by simp, by simp⟩
  intro term hterm
  rcases List.mem_append.mp hterm with hterm | hterm
  · apply hterms term hterm
  · apply hterms' term hterm

theorem Sums.of_eq {cs cs' : List Char} {nanos nanos' : Nat} (h : Sums cs nanos) (hcs : cs' = cs)
    (hnanos : nanos' = nanos) :
  Sums cs' nanos'
  := by
  rw [hcs, hnanos]
  apply h

/-- A text denotes the sum of its terms. -/
theorem denoted?_of_sums {text : String} {nanos : Nat} (h : Sums text.toList nanos) :
  denoted? text = some nanos
  := by
  obtain ⟨written, hterms, htext, rfl⟩ := h
  have hsome : ∀ term ∈ written.map Prod.fst, ∃ nanos, Term term nanos := by
    intro term hterm
    obtain ⟨t, ht, rfl⟩ := List.mem_map.mp hterm
    exact ⟨t.2, hterms t ht⟩
  have hvalues : (written.map Prod.fst).mapM termNanos? = some (written.map Prod.snd) := by
    clear hsome htext
    induction written with
    | nil => rfl
    | cons term written ih =>
      rw [List.forall_mem_cons] at hterms
      simp [hterms.1.value, ih hterms.2]
  rw [denoted?, htext, terms_flatten hsome, hvalues]
  rfl

/-! ### Writing terms -/

/-- The characters of a fraction of `places` decimal places, without trailing zeros. -/
def fractionChars (fraction places : Nat) : List Char :=
  if fraction = 0 then []
  else '.' :: ((Decimal.paddedDigits places fraction).reverse.dropWhile (· = '0')).reverse

theorem withFraction_eq (whole fraction places : Nat) :
  withFraction whole fraction places
    = String.ofList (Decimal.digits whole ++ fractionChars fraction places)
  := by
  unfold withFraction fractionChars
  split
  · rw [List.append_nil, Decimal.text]
  · rw [Decimal.text, String.ofList_append, ← List.singleton_append, String.ofList_append,
      ← String.append_assoc]

/-- Digits without their trailing zeros. -/
theorem exists_trimmed (digits : List Char) :
  ∃ zeros, digits = (digits.reverse.dropWhile (· = '0')).reverse ++ List.replicate zeros '0'
  := by
  have hsplit := List.takeWhile_append_dropWhile (p := (· = '0')) (l := digits.reverse)
  have hzeros : digits.reverse.takeWhile (· = '0')
      = List.replicate (digits.reverse.takeWhile (· = '0')).length '0' := by
    apply List.eq_replicate_of_mem
    intro c hc
    simpa using List.mem_takeWhile_imp hc
  refine ⟨(digits.reverse.takeWhile (· = '0')).length, ?_⟩
  rw [← List.reverse_replicate, ← hzeros, ← List.reverse_append, hsplit, List.reverse_reverse]

theorem isNumeral_of_isDigit {c : Char} (h : c.isDigit) :
  isNumeral c = true
  := by
  simp [isNumeral, h]

theorem ne_dot_of_isDigit {c : Char} (h : c.isDigit) :
  c ≠ '.'
  := by
  rintro rfl
  cases h

/-- A whole number times another one. -/
theorem times?_digits (whole n : Nat) :
  times? (Decimal.digits whole) n = some (whole * n)
  := by
  have hdigits : ∀ c ∈ Decimal.digits whole, decide (c ≠ '.') = true := by
    intro c hc
    simpa using ne_dot_of_isDigit (Decimal.isDigit_of_mem_digits hc)
  rw [times?]
  simp only [List.takeWhile_eq_self_iff.mpr hdigits, List.dropWhile_eq_nil_iff.mpr hdigits]
  simp [Decimal.value?_digits]

/-- A number with a fraction times the unit that its last place stands for. -/
theorem times?_fractionChars (whole : Nat) {fraction places : Nat} (hplaces : 0 < places)
    (h : fraction < 10 ^ places) :
  times? (Decimal.digits whole ++ fractionChars fraction places) (10 ^ places)
    = some (whole * 10 ^ places + fraction)
  := by
  by_cases hfraction : fraction = 0
  · rw [fractionChars, if_pos hfraction, List.append_nil, times?_digits, hfraction, Nat.add_zero]
  · obtain ⟨zeros, hpadded⟩ := exists_trimmed (Decimal.paddedDigits places fraction)
    obtain ⟨trimmed, htrimmed⟩ : ∃ trimmed, trimmed
      = ((Decimal.paddedDigits places fraction).reverse.dropWhile (· = '0')).reverse := ⟨_, rfl⟩
    rw [← htrimmed] at hpadded
    have hlength : trimmed.length + zeros = places := by
      rw [← Decimal.length_paddedDigits places hplaces h, hpadded]
      simp
    have hall : ∀ c ∈ Decimal.digits whole ++ trimmed, c.isDigit := by
      intro c hc
      rcases List.mem_append.mp hc with hc | hc
      · apply Decimal.isDigit_of_mem_digits hc
      · apply @Decimal.isDigit_of_mem_paddedDigits places fraction
        rw [hpadded]
        apply List.mem_append_left _ hc
    have hdigits : ∀ c ∈ Decimal.digits whole, decide (c ≠ '.') = true := by
      intro c hc
      simpa using ne_dot_of_isDigit (Decimal.isDigit_of_mem_digits hc)
    -- The zeros that were left out make up for the places that the fraction does not fill.
    have hvalue : Nat.ofDigitChars 10 (Decimal.digits whole ++ trimmed) 0 * 10 ^ zeros
        = whole * 10 ^ places + fraction := by
      have hread : Nat.ofDigitChars 10 (Decimal.digits whole ++ Decimal.paddedDigits places fraction) 0
          = whole * 10 ^ places + fraction := by
        rw [Nat.ofDigitChars_append, Nat.ofDigitChars_eq_ofDigitChars_zero,
          Decimal.length_paddedDigits places hplaces h, Decimal.digits,
          Nat.ofDigitChars_ten_toDigits, Nat.mul_comm, Decimal.ofDigitChars_paddedDigits]
      rw [← hread, hpadded, ← List.append_assoc, Nat.ofDigitChars_append _ (m := List.replicate _ _),
        Nat.ofDigitChars_replicate_zero, Nat.mul_comm]
    have hscaled : Nat.ofDigitChars 10 (Decimal.digits whole ++ trimmed) 0 * 10 ^ places
        = 10 ^ trimmed.length * (whole * 10 ^ places + fraction) := by
      rw [← hvalue, ← hlength, Nat.pow_add]
      ac_rfl
    rw [fractionChars, if_neg hfraction, ← htrimmed, times?]
    simp only [List.takeWhile_append_of_pos hdigits, List.dropWhile_append_of_pos hdigits]
    simp only [List.takeWhile_cons, List.dropWhile_cons, ne_eq, not_true_eq_false, decide_false,
      Bool.false_eq_true, if_false, List.append_nil, List.drop_one, List.tail_cons]
    rw [Decimal.value?, Decimal.valueFrom?_eq hall, Option.bind_some, hscaled,
      if_pos (Nat.dvd_mul_right _ _), Nat.mul_div_cancel_left _ (Nat.pow_pos (by decide))]

/-- A unit is written in letters. -/
theorem letters_of_clockUnit? {unit : List Char} {nanos : Nat} (h : clockUnit? unit = some nanos) :
  unit ≠ [] ∧ ∀ c ∈ unit, isNumeral c = false
  := by
  unfold clockUnit? at h
  split at h
  case h_7 => cases h
  all_goals
    refine ⟨List.cons_ne_nil _ _, ?_⟩
    simp only [List.forall_mem_cons, List.not_mem_nil, false_implies, implies_true, and_true]
    decide

/-- Digits with a fraction and a unit are a term. -/
theorem Term.of_times? {whole fraction places nanos value : Nat} {unit : List Char}
    (hunit : clockUnit? unit = some nanos)
    (hvalue : times? (Decimal.digits whole ++ fractionChars fraction places) nanos = some value) :
  Term (Decimal.digits whole ++ fractionChars fraction places ++ unit) value
  := by
  obtain ⟨hne, hletters⟩ := letters_of_clockUnit? hunit
  have hnumber : ∀ c ∈ Decimal.digits whole ++ fractionChars fraction places, isNumeral c := by
    intro c hc
    rcases List.mem_append.mp hc with hc | hc
    · apply isNumeral_of_isDigit (Decimal.isDigit_of_mem_digits hc)
    · unfold fractionChars at hc
      split at hc
      · cases hc
      · rcases List.mem_cons.mp hc with rfl | hc
        · rfl
        · apply isNumeral_of_isDigit
          apply @Decimal.isDigit_of_mem_paddedDigits places fraction
          rw [List.mem_reverse] at hc
          apply List.mem_reverse.mp (List.dropWhile_sublist _ |>.mem hc)
  constructor
  · refine ⟨_, unit, rfl, ?_, hne, hnumber, hletters⟩
    simp [Decimal.digits]
  · rw [termNanos?, List.dropWhile_append_of_pos hnumber, List.takeWhile_append_of_pos hnumber]
    cases unit with
    | nil => exact absurd rfl hne
    | cons c unit =>
      have hc := hletters c List.mem_cons_self
      rw [List.dropWhile_cons, List.takeWhile_cons, hc]
      simpa [hunit] using hvalue

/-- A whole number with a unit is a term. -/
theorem term_digits (whole : Nat) {nanos : Nat} {unit : List Char}
    (hunit : clockUnit? unit = some nanos) :
  Term (Decimal.digits whole ++ unit) (whole * nanos)
  := by
  have hterm : Term (Decimal.digits whole ++ fractionChars 0 0 ++ unit) (whole * nanos) := by
    apply Term.of_times? hunit
    rw [fractionChars, if_pos rfl, List.append_nil, times?_digits]
  rw [fractionChars, if_pos rfl, List.append_nil] at hterm
  apply hterm

/-- A number with a fraction is a term with the unit that its last place stands for. -/
theorem term_fraction (whole : Nat) {fraction places : Nat} {unit : List Char}
    (hunit : clockUnit? unit = some (10 ^ places)) (hplaces : 0 < places)
    (h : fraction < 10 ^ places) :
  Term (Decimal.digits whole ++ fractionChars fraction places ++ unit)
    (whole * 10 ^ places + fraction)
  := by
  apply Term.of_times? hunit
  apply times?_fractionChars whole hplaces h

/-! ### Durations and policies -/

theorem toList_withFraction (whole fraction places : Nat) :
  (withFraction whole fraction places).toList
    = Decimal.digits whole ++ fractionChars fraction places
  := by
  rw [withFraction_eq, String.toList_ofList]

theorem toList_text (n : Nat) :
  (Decimal.text n).toList = Decimal.digits n
  := String.toList_ofList

/-- The text of a duration of at least a second has a term for its seconds, after terms for its
minutes and hours if it needs them. -/
theorem sums_seconds {d : Duration} (h : nanosPerSecond ≤ d.nanos) :
  Sums d.clockText.toList d.nanos
  := by
  have hhours : ∀ n, Sums (Decimal.digits n ++ ['h']) (n * (3600 * nanosPerSecond)) :=
    fun n => (term_digits n rfl).sums
  have hminutes : ∀ n, Sums (Decimal.digits n ++ ['m']) (n * (60 * nanosPerSecond)) :=
    fun n => (term_digits n rfl).sums
  have hseconds : Sums (Decimal.digits (d.seconds % 60) ++ fractionChars d.fraction 9 ++ ['s'])
      (d.seconds % 60 * nanosPerSecond + d.fraction) :=
    (@term_fraction (d.seconds % 60) d.fraction 9 ['s'] rfl (by decide) (Nat.mod_lt _ (by decide))).sums
  have hnanos : d.seconds * nanosPerSecond + d.fraction = d.nanos := Nat.div_add_mod' _ _
  have hpositive : ¬ d.nanos = 0 := by
    rw [nanosPerSecond] at h
    omega
  have htext : d.clockText = _ := (if_neg hpositive).trans (if_neg (Nat.not_lt.mpr h))
  rw [htext]
  dsimp only
  rw [nanosPerSecond] at hhours hminutes hseconds hnanos
  split
  · refine (((hhours (d.seconds / 3600)).append (hminutes (d.seconds % 3600 / 60))).append hseconds).of_eq ?_ ?_
    · simp only [String.toList_append, toList_text, toList_withFraction, List.append_assoc]
      rfl
    · omega
  · split
    · refine ((hminutes (d.seconds % 3600 / 60)).append hseconds).of_eq ?_ ?_
      · simp only [String.toList_append, toList_text, toList_withFraction, List.append_assoc]
        rfl
      · omega
    · refine hseconds.of_eq ?_ ?_
      · simp only [String.toList_append, toList_withFraction]
        rfl
      · omega

/-- The text of a duration below a second is one term. -/
theorem sums_fraction {d : Duration} (h : d.nanos < nanosPerSecond) :
  Sums d.clockText.toList d.nanos
  := by
  by_cases hzero : d.nanos = 0
  · have hterm : Sums (Decimal.digits 0 ++ ['s']) (0 * nanosPerSecond) :=
      (term_digits 0 rfl).sums
    refine hterm.of_eq ?_ ?_
    · rw [clockText, if_pos hzero]
      decide
    · rw [hzero, Nat.zero_mul]
  · have htext : d.clockText = _ := (if_neg hzero).trans (if_pos h)
    rw [htext]
    split
    · have hterm := (@term_fraction (d.nanos / 1000000) (d.nanos % 1000000) 6 ['m', 's'] rfl
        (by decide) (Nat.mod_lt _ (by decide))).sums
      refine hterm.of_eq ?_ ?_
      · rw [String.toList_append, toList_withFraction]
        rfl
      · omega
    · split
      · have hterm := (@term_fraction (d.nanos / 1000) (d.nanos % 1000) 3 ['µ', 's'] rfl
          (by decide) (Nat.mod_lt _ (by decide))).sums
        refine hterm.of_eq ?_ ?_
        · rw [String.toList_append, toList_withFraction]
          rfl
        · omega
      · have hterm : Sums (Decimal.digits d.nanos ++ ['n', 's']) (d.nanos * 1) :=
          (term_digits d.nanos rfl).sums
        refine hterm.of_eq ?_ ?_
        · rw [String.toList_append, toList_text]
          rfl
        · omega

theorem sums_clockText (d : Duration) :
  Sums d.clockText.toList d.nanos
  := by
  by_cases h : d.nanos < nanosPerSecond
  · apply sums_fraction h
  · apply sums_seconds (Nat.not_lt.mp h)

/-- The text of a duration denotes the duration. -/
theorem denoted?_clockText (d : Duration) :
  denoted? d.clockText = some d.nanos
  := denoted?_of_sums (sums_clockText d)

/-- Different durations have different texts. -/
theorem clockText_injective {d d' : Duration} (h : d.clockText = d'.clockText) :
  d = d'
  := by
  have hnanos : some d.nanos = some d'.nanos := by
    rw [← denoted?_clockText, h, denoted?_clockText]
  obtain ⟨nanos, hlt⟩ := d
  obtain ⟨nanos', hlt'⟩ := d'
  cases hnanos
  rfl

/-- A term has no quotation marks. -/
theorem Term.quote_notMem {cs : List Char} {nanos : Nat} (h : Term cs nanos) :
  '"' ∉ cs
  := by
  obtain ⟨unit, hunit, -⟩ := Option.bind_eq_some_iff.mp h.value
  intro hquote
  rw [← List.takeWhile_append_dropWhile (p := isNumeral) (l := cs), List.mem_append] at hquote
  rcases hquote with hquote | hquote
  · cases List.mem_takeWhile_imp hquote
  · unfold clockUnit? at hunit
    split at hunit <;> simp_all

theorem quote_notMem_clockText (d : Duration) :
  '"' ∉ d.clockText.toList
  := by
  obtain ⟨written, hterms, htext, -⟩ := sums_clockText d
  rw [htext]
  intro hquote
  obtain ⟨term, hterm, hquote⟩ := List.mem_flatten.mp hquote
  obtain ⟨t, ht, rfl⟩ := List.mem_map.mp hterm
  apply (hterms t ht).quote_notMem hquote

end Duration

/-- Policies are told apart by their fingerprints. -/
theorem Policy.fingerprint_injective {p p' : Policy} (h : p.fingerprint = p'.fingerprint) :
  p = p'
  := by
  -- The text of the lifetime ends at the first quotation mark after it.
  have hends : ∀ (d : Duration) (rest : List Char),
      (d.clockText.toList ++ '"' :: rest).takeWhile (· ≠ '"') = d.clockText.toList := by
    intro d rest
    rw [List.takeWhile_append_of_pos]
    · rw [List.takeWhile_cons_of_neg (by simp), List.append_nil]
    · intro c hc
      rw [decide_eq_true_eq]
      rintro rfl
      apply d.quote_notMem_clockText hc
  have htexts : ∀ p : Policy, p.fingerprint.toList = "\x7b\"lifetime\":\"".toList
      ++ (p.lifetime.clockText.toList ++ '"' :: (",\"refresh\":\"".toList
        ++ (p.refresh.clockText.toList ++ "\"\x7d".toList))) := by
    intro p
    unfold Policy.fingerprint
    simp only [String.toList_append, List.append_assoc]
    rfl
  have hsame := congrArg String.toList h
  rw [htexts, htexts] at hsame
  have hsame := List.append_cancel_left hsame
  have hlifetime : p.lifetime.clockText.toList = p'.lifetime.clockText.toList := by
    rw [← hends p.lifetime, hsame, hends]
  rw [hlifetime] at hsame
  have hrefresh := List.append_cancel_left (List.cons.inj (List.append_cancel_left hsame)).2
  have hrefresh := List.append_cancel_right hrefresh
  obtain ⟨lifetime, refresh⟩ := p
  obtain ⟨lifetime', refresh'⟩ := p'
  obtain rfl := Duration.clockText_injective (String.toList_injective hlifetime)
  obtain rfl := Duration.clockText_injective (String.toList_injective hrefresh)
  rfl

/-- Fingerprints tell policies apart, because the text of a duration denotes the duration: policies have
the same fingerprint just if their lifetimes and their renewal times are the same. -/
theorem Policy.fingerprint_separates :
  (∀ d : Duration, Duration.denoted? d.clockText = some d.nanos)
    ∧ Function.Injective Duration.clockText
    ∧ ∀ p p' : Policy,
        p.fingerprint = p'.fingerprint ↔ p.lifetime = p'.lifetime ∧ p.refresh = p'.refresh
  := by
  refine ⟨Duration.denoted?_clockText, fun _ _ h => Duration.clockText_injective h, ?_⟩
  intro p p'
  constructor
  · intro h
    obtain rfl := Policy.fingerprint_injective h
    exact ⟨rfl, rfl⟩
  · rintro ⟨hlifetime, hrefresh⟩
    obtain ⟨lifetime, refresh⟩ := p
    obtain ⟨lifetime', refresh'⟩ := p'
    obtain rfl : lifetime = lifetime' := hlifetime
    obtain rfl : refresh = refresh' := hrefresh
    rfl

end CertKeeper
