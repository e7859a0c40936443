import CertKeeper.Proofs.Yaml.Scalar.Quoted
import CertKeeper.Yaml.Scalar.Block

/-!
# Reading back literal blocks

A text that is written as a literal block is read back from it (`blockScalar_literal`). Behind its first
line breaks the text consists of `Scalar.Lines`, which are read one after another (`blockLines_text`). They
are indented by two columns more than what is around them, so the block ends with the next line of that.
-/

namespace CertKeeper.Yaml

variable {c : Char} {cs bs ds rest : List Char} {line column indent k n : Nat}

/-! ### The header -/

/-- The sign of a chomping in a header. -/
def Chomping.sign : Chomping → List Char
  | .strip => ['-']
  | .clip => []
  | .keep => ['+']

/-- The chomping that keeps the end of a text as it is. -/
def Chomping.of (cs : List Char) : Chomping :=
  match cs.reverse with
  | [] => .strip
  | last :: before =>
    if !isBreak last then .strip
    else if before.isEmpty || before.head?.any isBreak then .keep
    else .clip

theorem literalHeader_eq (cs : List Char) :
  Scalar.literalHeader cs
    = '|' :: ((if cs.head?.any (fun c => Scalar.isSpace c || isBreak c) then ['2'] else [])
      ++ (Chomping.of cs).sign)
  := by
  unfold Scalar.literalHeader Chomping.of
  cases cs.reverse with
  | nil => rfl
  | cons last before =>
    dsimp only
    cases isBreak last <;> cases before.isEmpty || before.head?.any isBreak <;> rfl

/-- A header is read as what it was written for. -/
theorem blockHeader_written (deep : Bool) (chomping : Chomping) (more : List Char) (line column : Nat) :
  ∃ column', blockHeader ⟨((if deep then ['2'] else []) ++ chomping.sign) ++ '\n' :: more, line, column⟩
    = .ok (chomping, if deep then 2 else 0, ⟨'\n' :: more, line, column'⟩)
  := by
  cases deep <;> cases chomping <;> exact ⟨_, rfl⟩

theorem skipLine?_newLine (more : List Char) (line column : Nat) :
  Cursor.skipLine? ⟨'\n' :: more, line, column⟩ = some ⟨more, line + 1, 0⟩
  := rfl

/-! ### Gaps between lines -/

theorem takeWhile_spaces (k : Nat) (rest : List Char) :
  (Scalar.spaces k ++ rest).takeWhile (· = ' ') = Scalar.spaces k ++ rest.takeWhile (· = ' ')
  := by
  apply List.takeWhile_append_of_pos
  intro c hc
  simp [Scalar.eq_of_mem_spaces hc]

theorem takeWhile_space_of_ne (h : rest.head? ≠ some ' ') :
  rest.takeWhile (· = ' ') = []
  := by
  cases rest with
  | nil => rfl
  | cons c rest =>
    have hc : c ≠ ' ' := by simpa using h
    simp [hc]

/-- Empty lines are passed, and then as many spaces as a line is indented, if there are as many. -/
theorem blockGap_breaks {gap : BlockGap} (hbs : ∀ b ∈ bs, isBreak b = true) (hindent : 0 < indent)
    (hk : k ≤ indent) (hstop : k = indent ∨ rest.head? ≠ some ' ')
    (hbreak : ∀ c ∈ rest.head?, isBreak c = false) (htab : rest.head? ≠ some '\t') (hn : bs.length < n) :
  ∃ widest, blockGap indent n gap ⟨bs ++ (Scalar.spaces k ++ rest), line, 0⟩
    = .ok (⟨gap.breaks ++ bs, widest⟩, ⟨rest, Cursor.lineAfter line bs, k⟩)
  := by
  induction bs generalizing gap line n with
  | nil =>
    obtain ⟨n, rfl⟩ := Nat.exists_eq_add_one.mpr hn
    have htaken : min ((Scalar.spaces k ++ rest).takeWhile (· = ' ')).length (indent - 0) = k := by
      rw [takeWhile_spaces, List.length_append, Scalar.length_spaces]
      rcases hstop with rfl | hstop
      · omega
      · rw [takeWhile_space_of_ne hstop, List.length_nil]
        omega
    refine ⟨max gap.widest k, ?_⟩
    rw [List.nil_append, blockGap]
    dsimp only
    rw [if_neg (Nat.ne_of_gt hindent), htaken, Cursor.advance_spaces, Nat.zero_add]
    dsimp only
    rw [decide_eq_false htab, Bool.and_false, if_neg (by simp)]
    cases rest with
    | nil => simp [Cursor.lineAfter]
    | cons c rest => simp [hbreak c rfl, Cursor.lineAfter]
  | cons b bs ih =>
    obtain ⟨n, rfl⟩ := Nat.exists_eq_add_one.mpr (Nat.zero_lt_of_lt hn)
    obtain ⟨hb, hbs'⟩ := List.forall_mem_cons.mp hbs
    have hnone : (b :: (bs ++ (Scalar.spaces k ++ rest))).takeWhile (· = ' ') = [] := by
      apply takeWhile_space_of_ne
      rintro ⟨rfl⟩
      cases hb
    have htab' : b ≠ '\t' := by
      rintro rfl
      cases hb
    obtain ⟨widest, hrest⟩ := @ih (line + 1) n ⟨gap.breaks ++ [b], max gap.widest 0⟩ hbs' (by simpa using hn)
    refine ⟨widest, ?_⟩
    rw [List.cons_append, blockGap]
    dsimp only
    rw [hnone, if_neg (Nat.ne_of_gt hindent), List.length_nil, Nat.zero_min]
    simp only [Cursor.advance, List.head?_cons, Option.some.injEq, htab', decide_false, Bool.and_false,
      Bool.false_eq_true, if_false, hb, if_true, hrest, Cursor.lineAfter, List.append_assoc]
    rfl

/-! ### Lines -/

namespace Scalar

/-- Lines with line breaks between them, none of which is empty. -/
inductive Lines : List Char → Prop where
  | last {l bs : List Char} : l ≠ [] → (∀ c ∈ l, isBreak c = false) → (∀ b ∈ bs, isBreak b = true) →
    Lines (l ++ bs)
  | more {l bs cs : List Char} {b : Char} : l ≠ [] → (∀ c ∈ l, isBreak c = false) →
      (∀ c ∈ b :: bs, isBreak c = true) → Lines cs → Lines (l ++ (b :: bs ++ cs))

theorem Lines.cons (h : Lines cs) (hc : isBreak c = false) :
  Lines (c :: cs)
  := by
  cases h with
  | last _ hl hbs =>
    rw [← List.cons_append]
    exact .last (List.cons_ne_nil _ _) (List.forall_mem_cons.mpr ⟨hc, hl⟩) hbs
  | more _ hl hbs hcs =>
    rw [← List.cons_append]
    exact .more (List.cons_ne_nil _ _) (List.forall_mem_cons.mpr ⟨hc, hl⟩) hbs hcs

theorem Lines.head (h : Lines cs) :
  ∃ d ds, cs = d :: ds ∧ isBreak d = false
  := by
  have hline : ∀ {l : List Char} (more : List Char), l ≠ [] → (∀ c ∈ l, isBreak c = false) →
      ∃ d ds, l ++ more = d :: ds ∧ isBreak d = false := by
    intro l more hne hl
    obtain ⟨d, ds, rfl⟩ := List.exists_cons_of_ne_nil hne
    exact ⟨d, _, rfl, hl d List.mem_cons_self⟩
  cases h with
  | last hne hl _ => apply hline _ hne hl
  | more hne hl _ _ => apply hline _ hne hl

/-- Behind its first line breaks a text consists of lines, unless it is over. -/
theorem exists_lines (cs : List Char) :
  ∃ bs ds, cs = bs ++ ds ∧ (∀ b ∈ bs, isBreak b = true) ∧ (ds = [] ∨ Lines ds)
  := by
  induction cs with
  | nil => exact ⟨[], [], rfl, by simp, .inl rfl⟩
  | cons c cs ih =>
    obtain ⟨bs, ds, rfl, hbs, hds⟩ := ih
    by_cases hc : isBreak c = true
    · exact ⟨c :: bs, ds, rfl, List.forall_mem_cons.mpr ⟨hc, hbs⟩, hds⟩
    · have hc' : isBreak c = false := by simpa using hc
      have hline : ∀ c' ∈ [c], isBreak c' = false := by simpa using hc'
      refine ⟨[], c :: (bs ++ ds), rfl, by simp, .inr ?_⟩
      rcases hds with rfl | hds
      · rw [List.append_nil]
        exact .last (List.cons_ne_nil c []) hline hbs
      · cases bs with
        | nil => exact hds.cons hc'
        | cons b bs => exact .more (List.cons_ne_nil c []) hline hbs hds

/-- A character of a literal block is written as it is. -/
def verbatim (c : Char) : List Char := [c]

theorem indentLines_line {l : List Char} (hl : ∀ c ∈ l, isBreak c = false) (ds : List Char) :
  indentLines indent verbatim false (l ++ ds) = l ++ indentLines indent verbatim false ds
  := by
  induction l with
  | nil => rfl
  | cons c l ih =>
    obtain ⟨hc, hl'⟩ := List.forall_mem_cons.mp hl
    rw [List.cons_append, indentLines_char hc, if_neg (by simp), ih hl']
    rfl

/-- A line starts with the spaces of its indentation. -/
theorem indentLines_fresh (h : isBreak c = false) (write : Char → List Char) (cs : List Char) :
  indentLines indent write true (c :: cs) = spaces indent ++ indentLines indent write false (c :: cs)
  := by
  rw [indentLines_char h, indentLines_char h]
  rfl

theorem length_le_indentLines (indent : Nat) (fresh : Bool) (cs : List Char) :
  cs.length ≤ (indentLines indent verbatim fresh cs).length
  := by
  induction cs generalizing fresh with
  | nil => exact Nat.le_refl _
  | cons c cs ih =>
    rw [indentLines]
    split
    · exact Nat.succ_le_succ (ih true)
    · have hlines := ih false
      simp only [verbatim, List.length_append, List.length_cons, List.length_nil]
      omega

/-- The line break that is written after a text that does not end with one. -/
def closing (cs : List Char) : List Char := if cs.getLast?.any isBreak then [] else ['\n']

theorem closing_append (hne : ds ≠ []) (cs : List Char) :
  closing (cs ++ ds) = closing ds
  := by
  obtain ⟨d, ds, rfl⟩ := List.exists_cons_of_ne_nil hne
  rw [closing, closing, List.getLast?_append, List.getLast?_cons]
  rfl

theorem closing_line {l : List Char} (hl : ∀ c ∈ l, isBreak c = false) (hne : l ≠ []) :
  closing l = ['\n']
  := by
  rw [closing, List.getLast?_eq_some_getLast hne]
  simp [hl _ (List.getLast_mem hne)]

theorem closing_breaks (hbs : ∀ b ∈ bs, isBreak b = true) (hne : bs ≠ []) :
  closing bs = []
  := by
  rw [closing, List.getLast?_eq_some_getLast hne]
  simp [hbs _ (List.getLast_mem hne)]

end Scalar

open Scalar (verbatim closing)

/-- What is left of a block scalar after its last line. -/
structure BlockText.Ended (t : BlockText) : Prop where
  ne_nil : t.text ≠ []
  line : ∀ c ∈ t.text.getLast?, isBreak c = false
  lastBreak : ∃ b, t.lastBreak = [b] ∧ isBreak b = true
  emptyLines : ∀ b ∈ t.emptyLines, isBreak b = true

/-- All that was read of a block scalar. -/
def BlockText.whole (t : BlockText) : List Char := t.text ++ t.lastBreak ++ t.emptyLines

/-- One line is read together with the line breaks after it. -/
theorem blockLines_line {t : BlockText} {l : List Char} {b : Char} (hl : ∀ c ∈ l, isBreak c = false)
    (hne : l ≠ []) (hb : isBreak b = true) (hbs : ∀ b ∈ bs, isBreak b = true) (hindent : 0 < indent)
    (hk : k ≤ indent) (hstop : k = indent ∨ rest.head? ≠ some ' ')
    (hbreak : ∀ c ∈ rest.head?, isBreak c = false) (htab : rest.head? ≠ some '\t') :
  blockLines false indent (n + 1) t ⟨l ++ b :: (bs ++ (Scalar.spaces k ++ rest)), line, indent⟩
    = blockLines false indent n ⟨t.whole ++ l, [b], bs, l.head?.any isSpaceOrTab⟩
      ⟨rest, Cursor.lineAfter (line + 1) bs, k⟩
  := by
  have hnotBreak : ∀ c ∈ l, (!isBreak c) = true := fun c hc => by simp [hl c hc]
  have htake : (l ++ b :: (bs ++ (Scalar.spaces k ++ rest))).takeWhile (fun c => !isBreak c) = l := by
    rw [List.takeWhile_append_of_pos hnotBreak]
    simp [hb]
  have hstart : (decide (indent = indent) && !(l ++ b :: (bs ++ (Scalar.spaces k ++ rest))).isEmpty)
      = true := by
    obtain ⟨c, l, rfl⟩ := List.exists_cons_of_ne_nil hne
    simp
  obtain ⟨widest, hgap⟩ := @blockGap_breaks bs rest (line + 1) indent k
    ((b :: (bs ++ (Scalar.spaces k ++ rest))).length + 1) {} hbs hindent hk hstop hbreak htab (by grind)
  rw [blockLines, if_pos hstart]
  simp only [Cursor.takeWhile, Cursor.skipWhile, htake, Cursor.advance_line hl, List.take_succ_cons,
    List.take_zero, Cursor.advance_break hb, hgap]
  rfl

theorem ne_of_not_isSeparator (h : ∀ c ∈ rest.head?, isSeparator c = false) :
  rest.head? ≠ some ' ' ∧ rest.head? ≠ some '\t' ∧ ∀ c ∈ rest.head?, isBreak c = false
  := by
  refine ⟨?_, ?_, fun c hc => isBreak_of_isSeparator_eq_false (h c hc)⟩
  · intro hspace
    cases h ' ' hspace
  · intro htab
    cases h '\t' htab

theorem blockLines_end (t : BlockText) (h : k ≠ indent) :
  blockLines false indent n t ⟨rest, line, k⟩ = .ok (t, ⟨rest, line, k⟩)
  := by
  cases n with
  | zero => rfl
  | succ n => simp [blockLines, h]

/-- With the last line the block ends. -/
theorem blockLines_last {t : BlockText} {l : List Char} {b : Char} (hl : ∀ c ∈ l, isBreak c = false)
    (hne : l ≠ [])
    (hb : isBreak b = true) (hbs : ∀ b ∈ bs, isBreak b = true) (hk : k < indent) (hrest : Leading k rest) :
  ∃ t' line', blockLines false indent (n + 1) t ⟨l ++ b :: (bs ++ (Scalar.spaces k ++ rest)), line, indent⟩
    = .ok (t', ⟨rest, line', k⟩) ∧ t'.Ended ∧ t'.whole = t.whole ++ l ++ b :: bs
  := by
  obtain ⟨hspace, htab, hbreak⟩ := ne_of_not_isSeparator hrest.head
  have hread := @blockLines_line bs rest line indent k n t l b hl hne hb hbs
    (Nat.zero_lt_of_lt hk) (Nat.le_of_lt hk) (.inr hspace) hbreak htab
  rw [blockLines_end _ (Nat.ne_of_lt hk)] at hread
  refine ⟨_, _, hread, ⟨by simp [hne], ?_, ⟨b, rfl, hb⟩, hbs⟩, ?_⟩
  · intro c hc
    rw [List.getLast?_append, List.getLast?_eq_some_getLast hne] at hc
    obtain rfl := Option.some.inj hc
    apply hl _ (List.getLast_mem hne)
  · simp [BlockText.whole]

/-- The lines of a text are read as the text. -/
theorem blockLines_text {t : BlockText} (h : Scalar.Lines cs) (htabs : '\t' ∉ cs) (hk : k < indent)
    (hrest : Leading k rest) (hn : cs.length ≤ n) :
  ∃ t' line', blockLines false indent n t
      ⟨Scalar.indentLines indent verbatim false cs ++ (closing cs ++ (Scalar.spaces k ++ rest)), line, indent⟩
    = .ok (t', ⟨rest, line', k⟩) ∧ t'.Ended ∧ t'.whole = t.whole ++ cs ++ closing cs
  := by
  induction h generalizing n t line with
  | @last l bs hne hl hbs =>
    have hlength := List.length_pos_iff.mpr hne
    rw [List.length_append] at hn
    obtain ⟨n, rfl⟩ := Nat.exists_eq_add_one.mpr (show 0 < n by omega)
    rw [Scalar.indentLines_line hl]
    cases bs with
    | nil =>
      -- The line break behind the last line is not one of the text.
      obtain ⟨t', line', hread, hend, hwhole⟩ := @blockLines_last [] rest line indent k n t l '\n' hl hne rfl
        (fun _ h => nomatch h) hk hrest
      rw [List.append_nil, Scalar.closing_line hl hne]
      refine ⟨t', line', ?_, hend, hwhole⟩
      rw [← hread, List.append_assoc]
      rfl
    | cons b bs =>
      obtain ⟨hb, hbs'⟩ := List.forall_mem_cons.mp hbs
      have hlines := @Scalar.indentLines_breaks indent verbatim _ hbs (List.cons_ne_nil _ _) false []
      rw [List.append_nil, Scalar.indentLines, List.append_nil] at hlines
      obtain ⟨t', line', hread, hend, hwhole⟩ :=
        @blockLines_last bs rest line indent k n t l b hl hne hb hbs' hk hrest
      rw [hlines, Scalar.closing_append (List.cons_ne_nil _ _),
        Scalar.closing_breaks hbs (List.cons_ne_nil _ _)]
      refine ⟨t', line', ?_, hend, by simp [hwhole]⟩
      rw [← hread, List.append_assoc]
      rfl
  | @more l bs cs b hne hl hbs hcs ih =>
    have hlength := List.length_pos_iff.mpr hne
    rw [List.length_append, List.length_append] at hn
    obtain ⟨n, rfl⟩ := Nat.exists_eq_add_one.mpr (show 0 < n by omega)
    obtain ⟨hb, hbs'⟩ := List.forall_mem_cons.mp hbs
    obtain ⟨t', line', hlast, hend, hwhole⟩ := @ih (Cursor.lineAfter (line + 1) bs) n
      ⟨t.whole ++ l, [b], bs, l.head?.any isSpaceOrTab⟩ (fun h => htabs (by simp [h])) (by omega)
    obtain ⟨d, ds, rfl, hd⟩ := hcs.head
    have htab' : d ≠ '\t' := by
      rintro rfl
      exact htabs (by simp)
    have hstart := @Scalar.indentLines_char d indent verbatim hd false ds
    rw [if_neg (by simp), List.nil_append, verbatim, List.singleton_append] at hstart
    have hclosing : closing (l ++ (b :: bs ++ d :: ds)) = closing (d :: ds) := by
      rw [← List.append_assoc, Scalar.closing_append (List.cons_ne_nil _ _)]
    have hread := @blockLines_line bs
      (Scalar.indentLines indent verbatim false (d :: ds) ++ (closing (d :: ds) ++ (Scalar.spaces k ++ rest)))
      line indent indent n t l b hl hne hb hbs' (Nat.zero_lt_of_lt hk) (Nat.le_refl _) (.inl rfl)
      (by simpa [hstart] using hd) (by simpa [hstart] using htab')
    refine ⟨t', line', ?_, hend, ?_⟩
    · rw [Scalar.indentLines_line hl, Scalar.indentLines_breaks hbs (List.cons_ne_nil _ _),
        Scalar.indentLines_fresh hd, hclosing, ← hlast, ← hread]
      simp
    · rw [hwhole, hclosing]
      simp [BlockText.whole]

/-! ### The end of a block -/

theorem Chomping.of_line (cs : List Char) (hc : isBreak c = false) :
  Chomping.of (cs ++ [c]) = .strip
  := by
  simp [Chomping.of, hc]

theorem Chomping.of_lines (cs : List Char) {b : Char} (hb : isBreak b = true) :
  Chomping.of (cs ++ [c] ++ [b]) = if isBreak c then .keep else .clip
  := by
  simp [Chomping.of, hb]

/-- With empty lines at its end a text is kept as it is. -/
theorem Chomping.of_append_breaks {b : Char} (cs : List Char) (hb : isBreak b = true)
    (hbs : ∀ b ∈ bs, isBreak b = true) (hne : bs ≠ []) :
  Chomping.of (cs ++ b :: bs) = .keep
  := by
  obtain rfl | ⟨before, e, rfl⟩ := bs.eq_nil_or_concat
  · exact absurd rfl hne
  rw [List.concat_eq_append] at hbs ⊢
  have hbefore : ∀ c ∈ b :: before, isBreak c = true :=
    List.forall_mem_cons.mpr ⟨hb, fun c hc => hbs c (List.mem_append_left _ hc)⟩
  have hsplit := List.dropLast_concat_getLast (List.cons_ne_nil b before)
  rw [← List.cons_append, ← hsplit, ← List.append_assoc, ← List.append_assoc,
    Chomping.of_lines _ (hbs e (by simp)), if_pos (hbefore _ (List.getLast_mem _))]

/-- A text of line breaks only is kept as it is. -/
theorem Chomping.of_breaks (hbs : ∀ b ∈ bs, isBreak b = true) (hne : bs ≠ []) :
  Chomping.of bs = .keep
  := by
  obtain ⟨b, bs, rfl⟩ := List.exists_cons_of_ne_nil hne
  obtain ⟨hb, hbs'⟩ := List.forall_mem_cons.mp hbs
  cases bs with
  | nil => simp [Chomping.of, hb]
  | cons e bs => apply Chomping.of_append_breaks [] hb hbs' (List.cons_ne_nil _ _)

/-- What a chomping leaves of the end of a block scalar. -/
def Chomping.tail (chomping : Chomping) (t : BlockText) : List Char :=
  match chomping with
  | .strip => []
  | .clip => t.lastBreak
  | .keep => t.lastBreak ++ t.emptyLines

/-- The chomping that was written for a text leaves the text. -/
theorem Chomping.text_append_tail {t : BlockText} (h : t.Ended) (hwhole : t.whole = cs ++ closing cs) :
  t.text ++ (Chomping.of cs).tail t = cs
  := by
  obtain ⟨hne, hline, ⟨b, hlast, hb⟩, hempty⟩ := h
  obtain ⟨text, lastBreak, emptyLines, blank⟩ := t
  obtain rfl | ⟨text, c, rfl⟩ := text.eq_nil_or_concat
  · exact absurd rfl hne
  dsimp only at hline hlast hempty ⊢
  subst hlast
  have hc : isBreak c = false := hline c (by simp)
  simp only [BlockText.whole, List.concat_eq_append] at hwhole ⊢
  by_cases hend : cs.getLast?.any isBreak = true
  · rw [closing, if_pos hend, List.append_nil] at hwhole
    subst hwhole
    cases emptyLines with
    | nil =>
      rw [List.append_nil, Chomping.of_lines text hb, if_neg (by simp [hc])]
      rfl
    | cons e es =>
      rw [List.append_assoc _ [b], List.singleton_append,
        Chomping.of_append_breaks _ hb hempty (List.cons_ne_nil _ _)]
      rfl
  · have hclosing : closing cs = ['\n'] := if_neg hend
    rw [hclosing] at hwhole
    obtain rfl | ⟨before, e, rfl⟩ := emptyLines.eq_nil_or_concat
    · rw [List.append_nil] at hwhole
      obtain ⟨rfl, -⟩ := List.append_inj' hwhole rfl
      rw [Chomping.of_line text hc, Chomping.tail, List.append_nil]
    · -- A text that does not end with a line break is followed by one only.
      rw [List.concat_eq_append, ← List.append_assoc] at hwhole
      obtain ⟨rfl, -⟩ := List.append_inj' hwhole rfl
      have hbreaks : ∀ c ∈ b :: before, isBreak c = true :=
        List.forall_mem_cons.mpr ⟨hb, fun c hc => hempty c (by simp [hc])⟩
      rw [List.append_assoc _ [b], List.singleton_append, Scalar.closing_append (List.cons_ne_nil _ _),
        Scalar.closing_breaks hbreaks (List.cons_ne_nil _ _)] at hclosing
      cases hclosing

/-! ### Literal blocks -/

/-- The first lines of a block that tells its indentation with its first line. -/
theorem blockGap_line (hspace : c ≠ ' ') (hbreak : isBreak c = false) (htab : c ≠ '\t') (hn : 0 < n) :
  blockGap 0 n {} ⟨Scalar.spaces indent ++ c :: rest, line, 0⟩ = .ok (⟨[], indent⟩, ⟨c :: rest, line, indent⟩)
  := by
  obtain ⟨n, rfl⟩ := Nat.exists_eq_add_one.mpr hn
  have htaken : ((Scalar.spaces indent ++ c :: rest).takeWhile (· = ' ')).length = indent := by
    rw [takeWhile_spaces, takeWhile_space_of_ne (by simpa using hspace), List.append_nil,
      Scalar.length_spaces]
  rw [blockGap]
  dsimp only
  rw [if_pos rfl, htaken, Cursor.advance_spaces]
  simp [hbreak, htab]

/-- The first line does not tell how far a block is indented. -/
def isDeep (cs : List Char) : Bool := cs.head?.any (fun c => Scalar.isSpace c || isBreak c)

/-- The gap before the first line that is not empty is read, whether that line tells the indentation
or the header does. -/
theorem blockGap_literal {outer : Nat} {d : Char} (hbs : ∀ b ∈ bs, isBreak b = true)
    (hd : isBreak d = false) (htab : d ≠ '\t') (hn : bs.length < n) :
  ∃ gap line', blockGap (if isDeep (bs ++ d :: ds) then outer + 2 else 0) n {}
      ⟨bs ++ (Scalar.spaces (outer + 2) ++ d :: rest), line, 0⟩
    = .ok (gap, ⟨d :: rest, line', outer + 2⟩) ∧ gap.breaks = bs
      ∧ (isDeep (bs ++ d :: ds) = true ∨ gap.widest = outer + 2)
  := by
  cases hdeep : isDeep (bs ++ d :: ds) with
  | true =>
    obtain ⟨widest, hgap⟩ := @blockGap_breaks bs (d :: rest) line (outer + 2) (outer + 2) n {} hbs (by omega)
      (Nat.le_refl _) (.inl rfl) (by simpa using hd) (by simpa using htab) hn
    exact ⟨_, _, hgap, rfl, .inl rfl⟩
  | false =>
    cases bs with
    | cons b bs => simp [isDeep, hbs b List.mem_cons_self] at hdeep
    | nil =>
      have hspace : d ≠ ' ' := by
        rintro rfl
        simp [isDeep, Scalar.isSpace] at hdeep
      exact ⟨_, _, blockGap_line hspace hd htab (Nat.zero_lt_of_lt hn), rfl, .inr rfl⟩

/-- A block is read as its lines behind its header and the gap before them. -/
theorem blockScalar_lines {outer line₁ column₁ line₂ : Nat} {deep : Bool} {t : BlockText}
    {chomping : Chomping} {lines more : List Char} {gap : BlockGap}
    (hgap : blockGap (if deep then outer + 2 else 0) (lines.length + 1) {} ⟨lines, line + 1, 0⟩
      = .ok (gap, ⟨more, line₁, column₁⟩))
    (hindent : deep = true ∨ gap.widest = outer + 2)
    (hlines : blockLines false (outer + 2) (more.length + 1) { emptyLines := gap.breaks }
      ⟨more, line₁, column₁⟩ = .ok (t, ⟨rest, line₂, k⟩)) :
  blockScalar false outer ⟨((if deep then ['2'] else []) ++ chomping.sign) ++ '\n' :: lines, line, column⟩
    = .ok (t.text ++ chomping.tail t, ⟨rest, line₂, k⟩)
  := by
  have hnat : (outer : Int).toNat = outer := rfl
  have hsucc : ((outer : Int) + 1).toNat = outer + 1 := rfl
  obtain ⟨column', hheader⟩ := blockHeader_written deep chomping lines line column
  simp only [blockScalar, hheader, bind, Except.bind, skipLine?_newLine, hnat, hsucc]
  cases deep with
  | true =>
    rw [if_pos rfl] at hgap
    have htwo : (2 : Nat) ≠ 0 := by decide
    have hgiven : outer + 2 ≠ 0 := by omega
    simp only [if_true, htwo, if_false, Nat.add_comm 2 outer, hgap, hgiven, hlines]
    rfl
  | false =>
    rw [if_neg (by simp)] at hgap
    have hwidest : max (max gap.widest (outer + 1)) 1 = outer + 2 := by
      rcases hindent with hindent | hindent
      · cases hindent
      · omega
    simp only [Bool.false_eq_true, if_false, if_true, hgap, hwidest, hlines]
    rfl

/-- If all lines are empty, a block ends where the gap after its header ends. -/
theorem blockScalar_breaks {outer : Nat} (hbs : ∀ b ∈ bs, isBreak b = true) (hne : bs ≠ []) (hk : k ≤ outer)
    (hrest : Leading k rest) :
  ∃ line', blockScalar false outer ⟨(Scalar.literalHeader bs).tail
      ++ '\n' :: (Scalar.indentLines (outer + 2) verbatim true bs
        ++ (closing bs ++ (Scalar.spaces k ++ rest))),
      line, column⟩
    = .ok (bs, ⟨rest, line', k⟩)
  := by
  obtain ⟨hspace, htab, hbreak⟩ := ne_of_not_isSeparator hrest.head
  have hdeep : isDeep bs = true := by
    obtain ⟨b, bs, rfl⟩ := List.exists_cons_of_ne_nil hne
    simp [isDeep, hbs b List.mem_cons_self]
  have hwritten : Scalar.indentLines (outer + 2) verbatim true bs = bs := by
    have hlines := @Scalar.indentLines_breaks (outer + 2) verbatim _ hbs hne true []
    rwa [List.append_nil, Scalar.indentLines, List.append_nil] at hlines
  have hshort : bs.length < (bs ++ (Scalar.spaces k ++ rest)).length + 1 := by
    rw [List.length_append]
    omega
  obtain ⟨widest, hgap⟩ := @blockGap_breaks _ rest (line + 1) (outer + 2) k _ {} hbs (by omega) (by omega)
    (.inr hspace) hbreak htab hshort
  have hlines := @blockLines_end rest (Cursor.lineAfter (line + 1) bs) (outer + 2) k (rest.length + 1)
    { emptyLines := bs } (by omega)
  rw [literalHeader_eq, List.tail_cons, ← isDeep, hdeep, Scalar.closing_breaks hbs hne, hwritten,
    List.nil_append, Chomping.of_breaks hbs hne]
  exact ⟨_, @blockScalar_lines _ line column k outer _ _ _ true _ .keep _ _ _ hgap (.inl rfl) hlines⟩

/-- Behind the gap after its header a block is read line by line. -/
theorem blockScalar_text {outer : Nat} (hbs : ∀ b ∈ bs, isBreak b = true) (hds : Scalar.Lines ds)
    (htabs : '\t' ∉ bs ++ ds) (hk : k ≤ outer) (hrest : Leading k rest) :
  ∃ line', blockScalar false outer ⟨(Scalar.literalHeader (bs ++ ds)).tail
      ++ '\n' :: (Scalar.indentLines (outer + 2) verbatim true (bs ++ ds)
        ++ (closing (bs ++ ds) ++ (Scalar.spaces k ++ rest))),
      line, column⟩
    = .ok (bs ++ ds, ⟨rest, line', k⟩)
  := by
  have hlines := fun gap line n => @blockLines_text ds rest line (outer + 2) k n { emptyLines := gap } hds
    (fun h => htabs (List.mem_append_right _ h)) (by omega) hrest
  obtain ⟨d, ds, rfl, hd⟩ := hds.head
  have htab : d ≠ '\t' := by
    rintro rfl
    exact htabs (by simp)
  have hclosing : closing (bs ++ d :: ds) = closing (d :: ds) :=
    Scalar.closing_append (List.cons_ne_nil _ _) bs
  have hwritten : Scalar.indentLines (outer + 2) verbatim true (bs ++ d :: ds)
      = bs ++ (Scalar.spaces (outer + 2) ++ Scalar.indentLines (outer + 2) verbatim false (d :: ds)) := by
    rw [← Scalar.indentLines_fresh hd]
    by_cases hnone : bs = []
    · rw [hnone, List.nil_append, List.nil_append]
    · rw [Scalar.indentLines_breaks hbs hnone]
  have hstart := @Scalar.indentLines_char d (outer + 2) verbatim hd false ds
  rw [if_neg (by simp), List.nil_append, verbatim, List.singleton_append] at hstart
  have hlength := Scalar.length_le_indentLines (outer + 2) false ds
  have hassoc : ∀ written more, bs ++ (Scalar.spaces (outer + 2) ++ d :: written) ++ more
      = bs ++ (Scalar.spaces (outer + 2) ++ d :: (written ++ more)) := by
    simp
  rw [literalHeader_eq, List.tail_cons, ← isDeep, hclosing, hwritten, hstart, hassoc]
  rw [hstart] at hlines
  simp only [List.cons_append] at hlines
  generalize hmore : Scalar.indentLines (outer + 2) verbatim false ds
    ++ (closing (d :: ds) ++ (Scalar.spaces k ++ rest)) = more at hlines
  have hmoreLength : ds.length ≤ more.length := by
    rw [← hmore, List.length_append]
    omega
  obtain ⟨gap, line₁, hgap, rfl, hindent⟩ := @blockGap_literal bs ds more (line + 1)
    ((bs ++ (Scalar.spaces (outer + 2) ++ d :: more)).length + 1) outer d hbs hd htab (by grind)
  obtain ⟨t, line₂, hread, hended, hwhole⟩ := hlines gap.breaks line₁ ((d :: more).length + 1) (by grind)
  have htext : t.text ++ (Chomping.of (gap.breaks ++ d :: ds)).tail t = gap.breaks ++ d :: ds := by
    apply Chomping.text_append_tail hended
    rw [hwhole, hclosing]
    rfl
  refine ⟨line₂, ?_⟩
  rw [blockScalar_lines hgap hindent hread, htext]

/-- A text that can be written as a literal block is read back from it. -/
theorem blockScalar_literal {outer : Nat} (hcs : Scalar.allowsLiteral cs) (hne : cs ≠ []) (hk : k ≤ outer)
    (hrest : Leading k rest) :
  ∃ line', blockScalar false outer ⟨(Scalar.literalHeader cs).tail
      ++ '\n' :: (Scalar.indentLines (outer + 2) verbatim true cs
        ++ (closing cs ++ (Scalar.spaces k ++ rest))),
      line, column⟩
    = .ok (cs, ⟨rest, line', k⟩)
  := by
  simp only [Scalar.allowsLiteral, Bool.and_eq_true, List.all_eq_true] at hcs
  obtain ⟨⟨hprintable, -⟩, -⟩ := hcs
  have htabs : '\t' ∉ cs := by
    intro htab
    have hprint := hprintable _ htab
    revert hprint
    decide
  obtain ⟨bs, ds, rfl, hbs, rfl | hds⟩ := Scalar.exists_lines cs
  · rw [List.append_nil] at hne ⊢
    apply blockScalar_breaks hbs hne hk hrest
  · apply blockScalar_text hbs hds htabs hk hrest

end CertKeeper.Yaml
