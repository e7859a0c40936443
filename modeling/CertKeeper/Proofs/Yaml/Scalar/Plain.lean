import CertKeeper.Proofs.Yaml.Cursor
import CertKeeper.Yaml.Scalar.Plain

/-!
# Reading back plain scalars

A text that may be written without quotes is a list of `Words` with spaces between them
(`Scalar.words_of_allowsPlain`). At the end of a line a plain scalar is read word by word, up to the
next line if that is not indented as far (`plainScalar_words`). A word before a colon is read up to the
colon (`plainScalar_key`).
-/

namespace CertKeeper.Yaml

variable {c d : Char} {w cs rest : List Char}

/-- The word stands by itself in a plain scalar. -/
structure Word (w : List Char) : Prop where
  ne_nil : w ≠ []
  separator : ∀ c ∈ w, isSeparator c = false
  not_key : w.getLast? ≠ some ':'

/-- Words with spaces between them, none of which begins a comment. -/
inductive Words : List Char → Prop where
  | last {w : List Char} : Word w → Words w
  | more {w cs : List Char} {n : Nat} : Word w → Words cs → cs.head? ≠ some '#' →
      Words (w ++ (Scalar.spaces (n + 1) ++ cs))

theorem Word.cons (hw : Word w) (hc : isSeparator c = false) :
  Word (c :: w)
  := by
  refine ⟨List.cons_ne_nil _ _, List.forall_mem_cons.mpr ⟨hc, hw.separator⟩, ?_⟩
  obtain ⟨d, w, rfl⟩ := List.exists_cons_of_ne_nil hw.ne_nil
  rw [List.getLast?_cons_cons]
  apply hw.not_key

theorem Words.cons (h : Words cs) (hc : isSeparator c = false) :
  Words (c :: cs)
  := by
  cases h with
  | last hw => exact .last (hw.cons hc)
  | more hw hcs hcomment =>
    rw [← List.cons_append]
    exact .more (hw.cons hc) hcs hcomment

theorem Word.head (hw : Word w) :
  ∃ c ds, w = c :: ds ∧ isSeparator c = false
  := by
  obtain ⟨c, ds, rfl⟩ := List.exists_cons_of_ne_nil hw.ne_nil
  exact ⟨c, ds, rfl, hw.separator c List.mem_cons_self⟩

theorem Words.head (h : Words cs) :
  ∃ c ds, cs = c :: ds ∧ isSeparator c = false
  := by
  cases h with
  | last hw => apply hw.head
  | more hw _ _ =>
    obtain ⟨c, ds, rfl, hc⟩ := hw.head
    exact ⟨c, _, rfl, hc⟩

theorem takeWhile_isSeparator (h : ∀ c ∈ rest.head?, isSeparator c = false) :
  rest.takeWhile isSeparator = []
  := by
  cases rest with
  | nil => rfl
  | cons c rest => simp [h c rfl]

/-! ### Reading words -/

/-- A word is read up to the separator after it, or up to a colon before one. -/
theorem plainWord_append (hsep : ∀ c ∈ w, isSeparator c = false) (hlast : w.getLast? ≠ some ':')
    (hrest : atSeparator rest ∨ ∃ more, rest = ':' :: more ∧ atSeparator more) :
  plainWord false (w ++ rest) = .ok w
  := by
  induction w with
  | nil =>
    rcases hrest with hrest | ⟨more, rfl, hmore⟩
    · cases rest with
      | nil => rfl
      | cons c rest =>
        have hc : isSeparator c = true := hrest
        simp [plainWord, hc]
    · simp [plainWord, hmore, isSeparator, isSpaceOrTab, isBreak]
  | cons c w ih =>
    obtain ⟨hc, hw⟩ := List.forall_mem_cons.mp hsep
    have hcolon : (decide (c = ':') && atSeparator (w ++ rest)) = false := by
      cases w with
      | nil =>
        have hne : c ≠ ':' := by
          rintro rfl
          exact hlast rfl
        simp [hne]
      | cons d w =>
        have hd : isSeparator d = false := hw d List.mem_cons_self
        simp [atSeparator, hd]
    have hlast' : w.getLast? ≠ some ':' := by
      cases w with
      | nil => simp
      | cons d w => simpa using hlast
    rw [List.cons_append, plainWord, ih hw hlast']
    simp only [Bool.false_and, Bool.or_false, Bool.and_false, hc, hcolon, Bool.false_eq_true, if_false]
    rfl

theorem tabBefore_spaces (indent n : Nat) (column : Option Nat) :
  tabBefore indent column (Scalar.spaces n) = false
  := by
  induction n generalizing column with
  | zero => rfl
  | succ n ih =>
    have htab : ' ' ≠ '\t' := by decide
    have hbreak : isBreak ' ' = false := rfl
    have hspaces : Scalar.spaces (n + 1) = ' ' :: Scalar.spaces n := rfl
    rw [hspaces]
    cases column with
    | none => simpa [tabBefore, hbreak] using ih none
    | some column => simpa [tabBefore, hbreak, htab] using ih (some (column + 1))

theorem any_isBreak_spaces (n : Nat) :
  (Scalar.spaces n).any isBreak = false
  := by
  rw [List.any_eq_false]
  intro c hc
  simp [Scalar.isBreak_space c hc]

theorem foldGap_spaces (n : Nat) :
  foldGap (Scalar.spaces n) = Scalar.spaces n
  := by
  rw [foldGap, any_isBreak_spaces]
  rfl

theorem not_atDocumentBoundary {c : Cursor} (h : 0 < c.column) :
  c.atDocumentBoundary = false
  := by
  have hne : c.column ≠ 0 := by omega
  simp [Cursor.atDocumentBoundary, Cursor.atBoundary, hne]

theorem takeWhile_separators {gap : List Char} (hgap : ∀ c ∈ gap, isSeparator c = true)
    (hrest : rest.takeWhile isSeparator = []) :
  (gap ++ rest).takeWhile isSeparator = gap
  := by
  rw [List.takeWhile_append_of_pos hgap, hrest, List.append_nil]

/-- A word is read with the separators after it. -/
theorem plainFrom_word {indent line column n : Nat} {text before gap : List Char} (hw : Word w)
    (hcomment : w.head? ≠ some '#') (hpos : 0 < column) (hgap : ∀ c ∈ gap, isSeparator c = true)
    (hne : gap ≠ []) (htab : tabBefore indent none gap = false) (hrest : rest.takeWhile isSeparator = []) :
  plainFrom false indent (n + 1) text before ⟨w ++ (gap ++ rest), line, column⟩
    = if Cursor.columnAfter (column + w.length) gap < indent then
        .ok (⟨text ++ foldGap before ++ w, gap.any isBreak⟩,
          ⟨rest, Cursor.lineAfter line gap, Cursor.columnAfter (column + w.length) gap⟩)
      else
        plainFrom false indent n (text ++ foldGap before ++ w) gap
          ⟨rest, Cursor.lineAfter line gap, Cursor.columnAfter (column + w.length) gap⟩
  := by
  obtain ⟨d, ds, rfl⟩ := List.exists_cons_of_ne_nil hne
  have hd : isSeparator d = true := hgap d List.mem_cons_self
  have hword := @plainWord_append w (d :: ds ++ rest) hw.separator hw.not_key (.inl hd)
  obtain ⟨c, cs, rfl⟩ := List.exists_cons_of_ne_nil hw.ne_nil
  replace hcomment : (c :: cs ++ (d :: ds ++ rest)).head? ≠ some '#' := hcomment
  have hline := fun e he => isBreak_of_isSeparator_eq_false (hw.separator e he)
  have htake := takeWhile_separators hgap hrest
  rw [plainFrom, not_atDocumentBoundary hpos]
  simp only [hcomment, decide_false, Bool.or_false, Bool.false_eq_true, if_false]
  rw [hword]
  simp only [Cursor.advance_line hline, Cursor.takeWhile, Cursor.skipWhile, htake,
    Cursor.advance_append, htab, Bool.false_eq_true, if_false]
  simp

/-- Words at the end of a line are read together with the line break and the spaces after it, if the next
line is indented less than a further line of the scalar would have to be. -/
theorem plainFrom_words {indent line column k n : Nat} {text gap : List Char} (h : Words cs)
    (hcomment : cs.head? ≠ some '#') (hindent : indent ≤ column) (hpos : 0 < column) (hk : k < indent)
    (hrest : Leading k rest) (hn : cs.length ≤ n) :
  plainFrom false indent n text gap ⟨cs ++ ('\n' :: Scalar.spaces k ++ rest), line, column⟩
    = .ok (⟨text ++ foldGap gap ++ cs, true⟩, ⟨rest, line + 1, k⟩)
  := by
  induction h generalizing n text gap column with
  | @last w hw =>
    have hlength := List.length_pos_iff.mpr hw.ne_nil
    obtain ⟨n, rfl⟩ := Nat.exists_eq_add_one.mpr (Nat.lt_of_lt_of_le hlength hn)
    have hseparators : ∀ c ∈ '\n' :: Scalar.spaces k, isSeparator c = true := by
      intro c hc
      rcases List.mem_cons.mp hc with rfl | hc
      · rfl
      · apply Scalar.isSeparator_space c hc
    rw [plainFrom_word hw hcomment hpos hseparators (List.cons_ne_nil _ _)
      (tabBefore_spaces indent k (some 0))
      (takeWhile_isSeparator hrest.head), Cursor.columnAfter_newLine, Cursor.lineAfter_newLine, if_pos hk]
    rfl
  | @more w cs j hw hcs hcomment' ih =>
    replace hcomment : w.head? ≠ some '#' := by
      obtain ⟨d, w, rfl, -⟩ := hw.head
      apply hcomment
    have hlength := List.length_pos_iff.mpr hw.ne_nil
    rw [List.length_append] at hn
    obtain ⟨n, rfl⟩ := Nat.exists_eq_add_one.mpr (show 0 < n by omega)
    obtain ⟨c, ds, rfl, hc⟩ := hcs.head
    have hstop : (c :: ds ++ ('\n' :: Scalar.spaces k ++ rest)).takeWhile isSeparator = [] := by
      simp [hc]
    have hspaces : Scalar.spaces (j + 1) ≠ [] := List.cons_ne_nil _ _
    have hassoc : w ++ (Scalar.spaces (j + 1) ++ c :: ds) ++ ('\n' :: Scalar.spaces k ++ rest)
        = w ++ (Scalar.spaces (j + 1) ++ (c :: ds ++ ('\n' :: Scalar.spaces k ++ rest))) := by simp
    have hrest' : (c :: ds).length ≤ n := by
      rw [List.length_append] at hn
      omega
    rw [hassoc, plainFrom_word hw hcomment hpos Scalar.isSeparator_space hspaces
      (tabBefore_spaces indent _ none) hstop,
      Cursor.columnAfter_spaces, Cursor.lineAfter_line Scalar.isBreak_space, if_neg (by omega),
      ih hcomment' (by omega) (by omega) hrest', foldGap_spaces]
    simp

theorem plainScalar_words {indent line column k : Nat} (h : Words cs) (hcomment : cs.head? ≠ some '#')
    (hindent : indent ≤ column) (hpos : 0 < column) (hk : k < indent) (hrest : Leading k rest) :
  plainScalar false indent ⟨cs ++ ('\n' :: Scalar.spaces k ++ rest), line, column⟩
    = .ok (⟨cs, true⟩, ⟨rest, line + 1, k⟩)
  := by
  apply plainFrom_words h hcomment hindent hpos hk hrest
  rw [List.length_append]
  omega

/-- A word before a colon is read up to the colon. -/
theorem plainScalar_key {indent line column : Nat} (hw : Word w) (hcomment : w.head? ≠ some '#')
    (hbound : Cursor.atDocumentBoundary ⟨w ++ ':' :: rest, line, column⟩ = false) (hrest : atSeparator rest) :
  plainScalar false indent ⟨w ++ ':' :: rest, line, column⟩
    = .ok (⟨w, false⟩, ⟨':' :: rest, line, column + w.length⟩)
  := by
  have hword := plainWord_append hw.separator hw.not_key (.inr ⟨rest, rfl, hrest⟩)
  have hcolon := @plainWord_append [] (':' :: rest) (fun _ h => nomatch h) (by simp) (.inr ⟨rest, rfl, hrest⟩)
  have hline := fun e he => isBreak_of_isSeparator_eq_false (hw.separator e he)
  have hlength := List.length_pos_iff.mpr hw.ne_nil
  have hfuel : (w ++ ':' :: rest).length + 1 = (w.length + rest.length) + 1 + 1 := by
    simp only [List.length_append, List.length_cons]
    omega
  obtain ⟨c, cs, rfl⟩ := List.exists_cons_of_ne_nil hw.ne_nil
  replace hcomment : (c :: cs ++ ':' :: rest).head? ≠ some '#' := hcomment
  have htake : (':' :: rest).takeWhile isSeparator = [] := rfl
  rw [plainScalar, hfuel, plainFrom, hbound]
  simp only [hcomment, decide_false, Bool.or_false, Bool.false_eq_true, if_false]
  rw [hword]
  simp only [Cursor.advance_line hline, Cursor.takeWhile, Cursor.skipWhile, htake, List.length_nil,
    Cursor.advance, tabBefore, Bool.false_eq_true, if_false, List.isEmpty_nil, Bool.not_true, Bool.and_false,
    Bool.false_and]
  rw [plainFrom, not_atDocumentBoundary (show 0 < column + (c :: cs).length by omega)]
  rw [List.nil_append] at hcolon
  have hcolonComment : (some ':' : Option Char) ≠ some '#' := by decide
  simp only [List.head?_cons, hcolonComment, decide_false, Bool.or_false, Bool.false_eq_true, if_false,
    hcolon]
  rfl

/-! ### Words of texts -/

namespace Scalar

/-- In a text without indicators there are words behind its first spaces. -/
theorem exists_words {b : Char} {cs : List Char} (hne : cs ≠ [])
    (hsep : ∀ c ∈ cs, isSeparator c = true → c = ' ') (hlast : cs.getLast? ≠ some ' ')
    (h : hasIndicator b cs = false) :
  ∃ n words, cs = spaces n ++ words ∧ Words words ∧ (n ≠ 0 → words.head? ≠ some '#')
  := by
  induction cs generalizing b with
  | nil => exact absurd rfl hne
  | cons c cs ih =>
    rw [hasIndicator, Bool.or_eq_false_iff, Bool.or_eq_false_iff] at h
    obtain ⟨⟨hkey, -⟩, hcs⟩ := h
    obtain ⟨hc, hsep'⟩ := List.forall_mem_cons.mp hsep
    by_cases hspace : c = ' '
    · -- What stands behind a space is no comment.
      subst hspace
      have hne' : cs ≠ [] := by
        rintro rfl
        exact hlast rfl
      obtain ⟨d, ds, rfl⟩ := List.exists_cons_of_ne_nil hne'
      rw [List.getLast?_cons_cons] at hlast
      obtain ⟨n, words, hsplit, hwords, hcomment⟩ := ih hne' hsep' hlast hcs
      refine ⟨n + 1, words, congrArg (' ' :: ·) hsplit, hwords, fun _ => ?_⟩
      by_cases hn : n = 0
      · subst hn
        rw [← show d :: ds = words from hsplit]
        rintro ⟨rfl⟩
        simp [hasIndicator, isSeparator, isSpaceOrTab] at hcs
      · apply hcomment hn
    · have hc' : isSeparator c = false := by
        apply Bool.eq_false_iff.mpr
        exact fun hseparator => hspace (hc hseparator)
      have hword : atSeparator cs = true → Word [c] := by
        intro hat
        refine ⟨List.cons_ne_nil _ _, by simpa using hc', ?_⟩
        intro hcolon
        obtain rfl : c = ':' := by simpa using hcolon
        simp [hat] at hkey
      refine ⟨0, c :: cs, rfl, ?_, fun h => absurd rfl h⟩
      cases cs with
      | nil => exact .last (hword rfl)
      | cons d ds =>
        rw [List.getLast?_cons_cons] at hlast
        obtain ⟨n, words, hsplit, hwords, hcomment⟩ := ih (List.cons_ne_nil _ _) hsep' hlast hcs
        rw [hsplit] at hword ⊢
        cases n with
        | zero => exact hwords.cons hc'
        | succ n => exact .more (hword rfl) hwords (hcomment (Nat.succ_ne_zero n))

theorem isSeparator_of_isPrintable {c : Char} (h : isPrintable c) (hbreak : isBreak c = false)
    (hsep : isSeparator c) :
  c = ' '
  := by
  rw [isSeparator, hbreak, Bool.or_false, isSpaceOrTab, Bool.or_eq_true] at hsep
  rcases hsep with hspace | htab
  · simpa using hspace
  · obtain rfl : c = '\t' := by simpa using htab
    revert h
    decide

/-- What can be written without quotes is a list of words. -/
theorem words_of_allowsPlain {cs : List Char} (hne : cs ≠ []) (h : allowsPlain cs) :
  Words cs ∧ cs.head? ≠ some '#'
  := by
  simp only [allowsPlain, Bool.and_eq_true, Bool.not_eq_true', List.all_eq_true, List.any_eq_false] at h
  obtain ⟨⟨⟨⟨⟨hprintable, hbreak⟩, hhead⟩, hlast⟩, hstart⟩, hindicator⟩ := h
  obtain ⟨c, cs, rfl⟩ := List.exists_cons_of_ne_nil hne
  have hspace : c ≠ ' ' := by simpa [isSpace] using hhead
  have hcomment : c ≠ '#' := by
    rintro rfl
    simp [startsWithIndicator] at hstart
  have hkey : (decide (c = ':') && atSeparator cs) = false := by
    by_cases hcolon : c = ':'
    · subst hcolon
      cases hat : atSeparator cs with
      | false => rfl
      | true => simp [startsWithIndicator, hat] at hstart
    · simp [hcolon]
  have hsep : ∀ d ∈ c :: cs, isSeparator d = true → d = ' ' := by
    intro d hd
    apply isSeparator_of_isPrintable (hprintable d hd)
    simpa using hbreak d hd
  have hlast' : (c :: cs).getLast? ≠ some ' ' := by
    intro he
    rw [he] at hlast
    cases hlast
  have hall : hasIndicator ' ' (c :: cs) = false := by
    rw [hasIndicator, hkey]
    simpa [hcomment] using hindicator
  obtain ⟨n, words, hsplit, hwords, -⟩ := exists_words hne hsep hlast' hall
  cases n with
  | zero =>
    obtain rfl : c :: cs = words := hsplit
    exact ⟨hwords, by simpa using hcomment⟩
  | succ n =>
    obtain ⟨hc, -⟩ := List.cons.inj hsplit
    exact absurd hc hspace

end Scalar

end CertKeeper.Yaml
